/-
The byte ring over whole histories.  Indexes are kept modulo 2^64, but a run
is described by natural numbers that never wrap; between them the ring holds
the words that have been put in and not yet taken out.
-/
import Barley.ByteRing

namespace Barley

/-- The header of a ring whose indexes have reached `w` and `r`. -/
structure RingHeader (ring : FrcRingBuff) (size w r : Nat) : Prop where
  size_eq : ring.size = Bytes.store .little 8 size
  widx_eq : ring.widx = Bytes.store .little 8 (w % 2 ^ 64)
  ridx_eq : ring.ridx = Bytes.store .little 8 (r % 2 ^ 64)

/-- A size that a ring can have: a power of two from 8 on that its array
holds. -/
def RingSize (size : Nat) : Prop :=
  ∃ k, 3 ≤ k ∧ size = 2 ^ k ∧ size ≤ ringBuffSize

section Indexes

variable {size : Nat}

theorem RingSize.dvd (hsize : RingSize size) : 8 ∣ size := by
  obtain ⟨k, hk, rfl, -⟩ := hsize
  exact pow_dvd_pow 2 hk

theorem RingSize.pos (hsize : RingSize size) : 0 < size := by
  obtain ⟨k, -, rfl, -⟩ := hsize
  exact Nat.two_pow_pos k

theorem RingSize.le (hsize : RingSize size) : size ≤ ringBuffSize := by
  obtain ⟨k, -, -, hle⟩ := hsize
  exact hle

theorem RingSize.lt (hsize : RingSize size) : size < 2 ^ 64 :=
  Nat.lt_of_le_of_lt hsize.le (by decide)

/-- The mask takes an index to its slot, wrapped or not. -/
theorem RingSize.mask (hsize : RingSize size) (n : Nat) :
    n % 2 ^ 64 &&& sub64 size 1 = n % size := by
  have hpos := hsize.pos
  have hlt := hsize.lt
  rw [sub64_eq hpos hlt]
  obtain ⟨k, -, rfl, -⟩ := hsize
  have hk : k < 64 := (Nat.pow_lt_pow_iff_right (by decide)).mp hlt
  rw [Nat.and_two_pow_sub_one_eq_mod]
  exact Nat.mod_mod_of_dvd n (pow_dvd_pow 2 (Nat.le_of_lt hk))

theorem RingSize.rest (hsize : RingSize size) (n : Nat) :
    sub64 size (n % size) = size - n % size :=
  sub64_eq (Nat.mod_lt n hsize.pos).le hsize.lt

theorem firstPiece_eq_min (size start count : Nat) :
    Ring.firstPiece size start count = min count (size - start % size) := by
  unfold Ring.firstPiece
  split <;> omega

theorem RingSize.dvd_firstPiece (hsize : RingSize size) {start count : Nat}
    (hstart : 8 ∣ start) (hcount : 8 ∣ count) :
    8 ∣ Ring.firstPiece size start count := by
  have hslot : 8 ∣ start % size := (Nat.dvd_mod_iff hsize.dvd).mpr hstart
  unfold Ring.firstPiece
  split
  · exact Nat.dvd_sub hsize.dvd hslot
  · exact hcount

theorem ringWord_store (order : Endian) {value : Nat} (h : value < 2 ^ 64) :
    ringWord order (Bytes.store .little 8 value) = value := by
  rw [ringWord_eq order (Bytes.length_store _ _ _)]
  exact Bytes.load_store .little (by simpa using h)

end Indexes

section Calls

variable {order : Endian} {ring : FrcRingBuff} {size w r : Nat}

/-- The two pieces of `count` bytes, as they cross the bus. -/
def ringPieces (order : Endian) (size start count : Nat) (bytes : List UInt8) :
    List UInt8 :=
  ringPiece order (bytes.take (Ring.firstPiece size start count)) ++
    ringPiece order ((bytes.drop (Ring.firstPiece size start count)).take
      (count - Ring.firstPiece size start count))

section Pieces

variable {start count : Nat} {bytes : List UInt8}

variable (size start) in
theorem length_first_piece (hcount : count ≤ bytes.length) :
    (bytes.take (Ring.firstPiece size start count)).length =
      Ring.firstPiece size start count := by
  rw [List.length_take]
  exact Nat.min_eq_left (Nat.le_trans Ring.firstPiece_le hcount)

variable (size start) in
theorem length_second_piece (hcount : count ≤ bytes.length) :
    ((bytes.drop (Ring.firstPiece size start count)).take
        (count - Ring.firstPiece size start count)).length =
      count - Ring.firstPiece size start count := by
  rw [List.length_take, List.length_drop]
  exact Nat.min_eq_left (Nat.sub_le_sub_right hcount _)

variable (order start) (hsize : RingSize size) (hcount : count ≤ bytes.length)
  (hfits : count ≤ size)

include hsize hcount hfits

theorem length_ringPiece_first :
    (ringPiece order (bytes.take (Ring.firstPiece size start count))).length =
      Ring.firstPiece size start count := by
  have hlen := length_first_piece size start hcount
  have hle : Ring.firstPiece size start count ≤ count := Ring.firstPiece_le
  have hbound := hsize.le
  rw [length_ringPiece (by omega), hlen]

theorem length_ringPiece_second :
    (ringPiece order ((bytes.drop (Ring.firstPiece size start count)).take
      (count - Ring.firstPiece size start count))).length =
      count - Ring.firstPiece size start count := by
  have hlen := length_second_piece size start hcount
  have hbound := hsize.le
  rw [length_ringPiece (by omega), hlen]

theorem length_ringPieces :
    (ringPieces order size start count bytes).length = count := by
  have hle : Ring.firstPiece size start count ≤ count := Ring.firstPiece_le
  rw [ringPieces, List.length_append,
    length_ringPiece_first order start hsize hcount hfits,
    length_ringPiece_second order start hsize hcount hfits]
  omega

/-- The memory is little-endian, the side sees its own words. -/
theorem wordsOf_ringPieces (hstart : 8 ∣ start) (hdvd : 8 ∣ count) :
    wordsOf .little (ringPieces order size start count bytes) =
        wordsOf order (bytes.take count) ∧
      wordsOf order (ringPieces order size start count bytes) =
        wordsOf .little (bytes.take count) := by
  have hfirst := length_first_piece size start hcount
  have hsecond := length_second_piece size start hcount
  have hle : Ring.firstPiece size start count ≤ count := Ring.firstPiece_le
  have hpiece := hsize.dvd_firstPiece hstart hdvd
  have hbound := hsize.le
  have hjoin : bytes.take count =
      bytes.take (Ring.firstPiece size start count) ++
        (bytes.drop (Ring.firstPiece size start count)).take
          (count - Ring.firstPiece size start count) := by
    rw [← List.take_add, Nat.add_sub_cancel' hle]
  have hdvdFirst : 8 ∣ (bytes.take
      (Ring.firstPiece size start count)).length := by
    rw [hfirst]
    exact hpiece
  have hdvdSecond : 8 ∣ ((bytes.drop (Ring.firstPiece size start count)).take
      (count - Ring.firstPiece size start count)).length := by
    rw [hsecond]
    exact Nat.dvd_sub hdvd hpiece
  have hwords := wordsOf_ringPiece order (by omega) hdvdFirst
  have hwords' := wordsOf_ringPiece order (by omega) hdvdSecond
  have hdvdPiece : 8 ∣ (ringPiece order (bytes.take
      (Ring.firstPiece size start count))).length := by
    rw [length_ringPiece_first order start hsize hcount hfits]
    exact hpiece
  rw [ringPieces, hjoin, wordsOf_append _ hdvdPiece, wordsOf_append _ hdvdPiece,
    wordsOf_append _ hdvdFirst, wordsOf_append _ hdvdFirst, hwords.1, hwords'.1,
    hwords.2, hwords'.2]
  exact ⟨rfl, rfl⟩

end Pieces

/-- What a put leaves. -/
structure PutResult (order : Endian) (ring : FrcRingBuff) (size w r : Nat)
    (buff : List UInt8) (count : Nat) (ring' : FrcRingBuff) : Prop where
  header : RingHeader ring' size (w + count) r
  writes : Ring.Writes size w count ring.buff.byteAt ring'.buff.byteAt
  held : wordsOf .little (Ring.window size ring'.buff.byteAt w count) =
    wordsOf order (buff.take count)

variable (hsize : RingSize size) (h : RingHeader ring size w r)
  (hle : r ≤ w) (hroom : w ≤ r + size) (hw : 8 ∣ w) (hr : 8 ∣ r)

include hsize h hle hroom in
/-- Both pieces stay inside the array. -/
theorem ringPut_eq {buff : List UInt8} {count : Nat}
    (hcount : count = min buff.length (size - (w - r))) :
    ∃ both : RingBytes,
      ringPut order ring buff buff.length = some (count, { ring with
        buff := both
        widx := Bytes.store .little 8 ((w + count) % 2 ^ 64) }) ∧
      both.byteAt = Ring.write (Ring.write ring.buff.byteAt (w % size)
        (ringPiece order (buff.take (Ring.firstPiece size w count)))) 0
        (ringPiece order ((buff.drop (Ring.firstPiece size w count)).take
          (count - Ring.firstPiece size w count))) := by
  have hlt := hsize.lt
  have hbound := hsize.le
  have hfree : add64 (sub64 size (w % 2 ^ 64)) (r % 2 ^ 64) =
      size - (w - r) := by
    unfold add64 sub64
    omega
  have hadd : add64 (w % 2 ^ 64) count = (w + count) % 2 ^ 64 := by
    unfold add64
    omega
  have hpiece : Ring.firstPiece size w count ≤ count := Ring.firstPiece_le
  have hends := Ring.firstPiece_fits hsize.pos w count
  have hrest : sub64 count (Ring.firstPiece size w count) =
      count - Ring.firstPiece size w count := sub64_eq hpiece (by omega)
  have hlen := length_ringPiece_first order w hsize
    (by omega : count ≤ buff.length) (by omega)
  have hlen' := length_ringPiece_second order w hsize
    (by omega : count ≤ buff.length) (by omega)
  obtain ⟨first, hfirst, hbytes⟩ :=
    ring.buff.write_of_fits (w % size)
      (ringPiece order (buff.take (Ring.firstPiece size w count))) (by omega)
  obtain ⟨both, hboth, hbytes'⟩ :=
    first.write_of_fits 0 (ringPiece order
      ((buff.drop (Ring.firstPiece size w count)).take
        (count - Ring.firstPiece size w count))) (by omega)
  refine ⟨both, ?_, by rw [hbytes', hbytes]⟩
  rw [ringPut, h.size_eq, h.widx_eq, h.ridx_eq, ringWord_store order hlt,
    ringWord_store order (Nat.mod_lt w (Nat.two_pow_pos 64)),
    ringWord_store order (Nat.mod_lt r (Nat.two_pow_pos 64))]
  simp only [hfree, ← hcount, hsize.mask, hsize.rest, ← firstPiece_eq_min,
    hrest, hadd, hfirst, hboth, Option.bind_eq_bind, Option.bind_some,
    Option.pure_def]
  rw [ringIndex_eq order (Nat.mod_lt _ (Nat.two_pow_pos 64))]

variable (order) in
include hsize h hle hroom hw hr in
theorem ringPut_spec {buff : List UInt8} (hbuff : 8 ∣ buff.length) :
    ∃ ring', ringPut order ring buff buff.length =
        some (min buff.length (size - (w - r)), ring') ∧
      PutResult order ring size w r buff
        (min buff.length (size - (w - r))) ring' := by
  obtain ⟨count, hcount⟩ :
      ∃ count, count = min buff.length (size - (w - r)) := ⟨_, rfl⟩
  have hfits : count ≤ size := by omega
  have hbytes : count ≤ buff.length := by omega
  have hdvd : 8 ∣ count := by
    have hfree : 8 ∣ size - (w - r) := Nat.dvd_sub hsize.dvd (Nat.dvd_sub hw hr)
    omega
  have hlen := length_ringPieces order w hsize hbytes hfits
  have hfirst := length_ringPiece_first order w hsize hbytes hfits
  have hwrite := Ring.write_pieces w ring.buff.byteAt
    (ringPieces order size w count buff) hsize.pos (by omega)
  rw [hlen, ringPieces, List.take_left' hfirst, List.drop_left' hfirst] at hwrite
  obtain ⟨hwindow, hwrites⟩ := hwrite
  obtain ⟨both, hput, hboth⟩ := ringPut_eq hsize h hle hroom hcount
  rw [← hboth] at hwindow hwrites
  rw [← hcount]
  refine ⟨_, hput, ⟨h.size_eq, rfl, h.ridx_eq⟩, hwrites, ?_⟩
  exact (congrArg (wordsOf .little) hwindow).trans
    (wordsOf_ringPieces order w hsize hbytes hfits hw hdvd).1

/-- What a get delivers and leaves. -/
structure GetResult (order : Endian) (ring : FrcRingBuff) (size w r : Nat)
    (count : Nat) (bytes : List UInt8) (ring' : FrcRingBuff) : Prop where
  header : RingHeader ring' size w (r + count)
  buff_eq : ring'.buff = ring.buff
  length_eq : bytes.length = count
  held : wordsOf order bytes =
    wordsOf .little (Ring.window size ring.buff.byteAt r count)

include hsize h hle hroom in
theorem ringGet_eq {len count : Nat} (hcount : count = min len (w - r)) :
    ringGet order ring len = some (count,
      ringPieces order size r count (Ring.window size ring.buff.byteAt r count),
      { ring with ridx := Bytes.store .little 8 ((r + count) % 2 ^ 64) }) := by
  have hlt := hsize.lt
  have hbound := hsize.le
  have hfits : count ≤ size := by omega
  have hheld : sub64 (w % 2 ^ 64) (r % 2 ^ 64) = w - r := by
    unfold sub64
    omega
  have hadd : add64 (r % 2 ^ 64) count = (r + count) % 2 ^ 64 := by
    unfold add64
    omega
  have hpiece : Ring.firstPiece size r count ≤ count := Ring.firstPiece_le
  have hends := Ring.firstPiece_fits hsize.pos r count
  have hinside := ring.buff.read_of_fits (r % size)
    (Ring.firstPiece size r count) (by omega)
  have hinside' := ring.buff.read_of_fits 0
    (count - Ring.firstPiece size r count) (by omega)
  have hrest : sub64 count (Ring.firstPiece size r count) =
      count - Ring.firstPiece size r count := sub64_eq hpiece (by omega)
  rw [ringGet, h.size_eq, h.widx_eq, h.ridx_eq, ringWord_store order hlt,
    ringWord_store order (Nat.mod_lt w (Nat.two_pow_pos 64)),
    ringWord_store order (Nat.mod_lt r (Nat.two_pow_pos 64))]
  simp only [hheld, ← hcount, hsize.mask, hsize.rest, ← firstPiece_eq_min,
    hrest, hadd, hinside, hinside', Option.bind_eq_bind, Option.bind_some,
    Option.pure_def]
  -- the two reads are the two parts of the window
  have hread := Ring.read_pieces r ring.buff.byteAt hsize.pos hfits
  have hfirst := Ring.length_read ring.buff.byteAt (r % size)
    (Ring.firstPiece size r count)
  have hsecond := Ring.length_read ring.buff.byteAt 0
    (count - Ring.firstPiece size r count)
  rw [ringIndex_eq order (Nat.mod_lt _ (Nat.two_pow_pos 64)), ringPieces,
    ← hread, List.take_left' hfirst, List.drop_left' hfirst,
    List.take_of_length_le (Nat.le_of_eq hsecond)]

variable (order) in
include hsize h hle hroom hw hr in
theorem ringGet_spec {len : Nat} (hlen : 8 ∣ len) :
    ∃ bytes ring', ringGet order ring len =
        some (min len (w - r), bytes, ring') ∧
      GetResult order ring size w r (min len (w - r)) bytes ring' := by
  obtain ⟨count, hcount⟩ : ∃ count, count = min len (w - r) := ⟨_, rfl⟩
  have hfits : count ≤ size := by omega
  have hdvd : 8 ∣ count := by
    have hheld : 8 ∣ w - r := Nat.dvd_sub hw hr
    omega
  have hwindow := Ring.length_window size ring.buff.byteAt r count
  have hbytes : count ≤ (Ring.window size ring.buff.byteAt r count).length :=
    Nat.le_of_eq hwindow.symm
  have hwords :=
    (wordsOf_ringPieces order r hsize hbytes hfits hr hdvd).2
  rw [List.take_of_length_le (Nat.le_of_eq hwindow)] at hwords
  rw [← hcount]
  refine ⟨_, _, ringGet_eq hsize h hle hroom hcount, ?_, rfl, ?_, hwords⟩
  · exact ⟨h.size_eq, h.widx_eq, rfl⟩
  · exact length_ringPieces order r hsize hbytes hfits

end Calls

/-- A call on the ring: a put of a whole buffer, or a get. -/
inductive RingOp where
  | put (buff : List UInt8)
  | get (len : Nat)

/-- The lengths that callers use. -/
def RingOp.Valid : RingOp → Prop
  | .put buff => 8 ∣ buff.length ∧ buff.length < 2 ^ 64
  | .get len => 8 ∣ len ∧ len < 2 ^ 64

/-- The ring, the words accepted by all puts and the words delivered by all
gets. -/
structure RingRun where
  ring : FrcRingBuff
  accepted : List Nat
  delivered : List Nat

namespace RingRun

/-- An empty ring whose indexes stand at `idx`; its bytes do not matter. -/
def start (size idx : Nat) (buff : RingBytes) : RingRun where
  ring := {
    size := Bytes.store .little 8 size
    widx := Bytes.store .little 8 idx
    ridx := Bytes.store .little 8 idx
    buff := buff }
  accepted := []
  delivered := []

section Runs

variable (putOrder getOrder : Endian)

/-- One call.  There is no next state when it leaves the array. -/
def step (run : RingRun) : RingOp → Option RingRun
  | .put buff => do
      let (count, ring) ← ringPut putOrder run.ring buff buff.length
      return {
        run with
        ring
        accepted := run.accepted ++ wordsOf putOrder (buff.take count) }
  | .get len => do
      let (_, bytes, ring) ← ringGet getOrder run.ring len
      return {
        run with
        ring
        delivered := run.delivered ++ wordsOf getOrder bytes }

/-- The bytes between the indexes. -/
def stored (run : RingRun) : Nat :=
  sub64 (ringWord .little run.ring.widx) (ringWord .little run.ring.ridx)

/-- The ring is a queue: it holds what has been accepted and not delivered,
and the next call moves as much as it can. -/
structure Fifo (size : Nat) (run : RingRun) : Prop where
  bounded : run.stored ≤ size
  stored_eq : run.stored =
    8 * (run.accepted.length - run.delivered.length)
  delivered_prefix : run.delivered <+: run.accepted
  put : ∀ buff, (RingOp.put buff).Valid →
    ∃ ring', ringPut putOrder run.ring buff buff.length =
      some (min buff.length (size - run.stored), ring')
  get : ∀ len, (RingOp.get len).Valid →
    ∃ bytes ring', ringGet getOrder run.ring len =
        some (min len run.stored, bytes, ring') ∧
      bytes.length = min len run.stored

end Runs

/-- What holds between calls.  The indexes have moved by 8 for every word, and
the window between them holds the words not yet delivered. -/
structure Inv (size idx : Nat) (run : RingRun) : Prop where
  header : RingHeader run.ring size (idx + 8 * run.accepted.length)
    (idx + 8 * run.delivered.length)
  room : run.accepted.length * 8 ≤ run.delivered.length * 8 + size
  held : run.accepted = run.delivered ++ wordsOf .little
    (Ring.window size run.ring.buff.byteAt (idx + 8 * run.delivered.length)
      (8 * (run.accepted.length - run.delivered.length)))

section Invariant

variable {size idx : Nat} {run : RingRun}

theorem Inv.le (h : Inv size idx run) :
    run.delivered.length ≤ run.accepted.length := by
  have hlen := congrArg List.length h.held
  rw [List.length_append] at hlen
  omega

theorem Inv.start (hidx : idx < 2 ^ 64) (buff : RingBytes) :
    Inv size idx (start size idx buff) where
  header := by
    have hmod : idx % 2 ^ 64 = idx := Nat.mod_eq_of_lt hidx
    refine ⟨rfl, ?_, ?_⟩
    · rw [RingRun.start, List.length_nil, Nat.mul_zero, Nat.add_zero, hmod]
    · rw [RingRun.start, List.length_nil, Nat.mul_zero, Nat.add_zero, hmod]
  room := by simp [RingRun.start]
  held := by simp [RingRun.start, wordsOf, wordsFrom]

theorem Inv.stored_eq (h : Inv size idx run) (hsize : RingSize size) :
    run.stored = 8 * (run.accepted.length - run.delivered.length) := by
  have hlt := hsize.lt
  have hle := h.le
  have hroom := h.room
  rw [stored, h.header.widx_eq, h.header.ridx_eq,
    ringWord_store .little (Nat.mod_lt _ (Nat.two_pow_pos 64)),
    ringWord_store .little (Nat.mod_lt _ (Nat.two_pow_pos 64))]
  unfold sub64
  omega

variable (h : Inv size idx run) (hsize : RingSize size) (hidx : 8 ∣ idx)

include h hsize in
/-- Between the two indexes lie the bytes in the ring. -/
theorem Inv.between_eq : idx + 8 * run.accepted.length -
    (idx + 8 * run.delivered.length) = run.stored := by
  rw [h.stored_eq hsize]
  omega

include h hsize hidx

/-- The next put, by the number of words in the ring. -/
theorem Inv.ringPut (putOrder : Endian) {buff : List UInt8}
    (hbuff : 8 ∣ buff.length) :
    ∃ ring', Barley.ringPut putOrder run.ring buff buff.length =
        some (min buff.length (size - run.stored), ring') ∧
      PutResult putOrder run.ring size (idx + 8 * run.accepted.length)
        (idx + 8 * run.delivered.length) buff
        (min buff.length (size - run.stored)) ring' := by
  have hle := h.le
  have hroom := h.room
  have hput := ringPut_spec putOrder hsize h.header (by omega)
    (by omega) (Nat.dvd_add hidx (Nat.dvd_mul_right 8 _))
    (Nat.dvd_add hidx (Nat.dvd_mul_right 8 _)) hbuff
  rw [h.between_eq hsize] at hput
  exact hput

/-- The next get, by the number of words in the ring. -/
theorem Inv.ringGet (getOrder : Endian) {len : Nat} (hlen : 8 ∣ len) :
    ∃ bytes ring', Barley.ringGet getOrder run.ring len =
        some (min len run.stored, bytes, ring') ∧
      GetResult getOrder run.ring size (idx + 8 * run.accepted.length)
        (idx + 8 * run.delivered.length) (min len run.stored) bytes ring' := by
  have hle := h.le
  have hroom := h.room
  have hget := ringGet_spec getOrder hsize h.header (by omega)
    (by omega) (Nat.dvd_add hidx (Nat.dvd_mul_right 8 _))
    (Nat.dvd_add hidx (Nat.dvd_mul_right 8 _)) hlen
  rw [h.between_eq hsize] at hget
  exact hget

theorem Inv.step_put (putOrder getOrder : Endian) {buff : List UInt8}
    (hbuff : 8 ∣ buff.length) :
    ∃ run', run.step putOrder getOrder (.put buff) = some run' ∧
      Inv size idx run' := by
  obtain ⟨ring', hput, hresult⟩ := h.ringPut hsize hidx putOrder hbuff
  have hle := h.le
  have hroom := h.room
  have hstored := h.stored_eq hsize
  have hsizeDvd := hsize.dvd
  have hdvd : 8 ∣ min buff.length (size - run.stored) := by omega
  obtain ⟨words, hwords⟩ := hdvd
  have hfits : 8 * words ≤ size - run.stored := by omega
  have hbytes : 8 * words ≤ buff.length := by omega
  have hlen : (run.accepted ++ wordsOf putOrder
      (buff.take (8 * words))).length = run.accepted.length + words := by
    rw [List.length_append, length_wordsOf, List.length_take,
      Nat.min_eq_left hbytes, Nat.mul_div_cancel_left words (by decide)]
  have hstep : run.step putOrder getOrder (.put buff) = some {
      run with
      ring := ring'
      accepted := run.accepted ++ wordsOf putOrder (buff.take (8 * words)) } := by
    rw [step, hput, hwords]
    rfl
  rw [hwords] at hresult
  refine ⟨_, hstep, ?_, ?_, ?_⟩
  · have hheader := hresult.header
    rw [Nat.add_assoc, ← Nat.mul_add, ← hlen] at hheader
    exact hheader
  · show (run.accepted ++ _).length * 8 ≤ run.delivered.length * 8 + size
    rw [hlen]
    omega
  · -- the window grows at its end; its old part is not overwritten
    have hcount : 8 * ((run.accepted.length + words) - run.delivered.length) =
        8 * (run.accepted.length - run.delivered.length) + 8 * words := by
      omega
    have hend : idx + 8 * run.delivered.length +
        8 * (run.accepted.length - run.delivered.length) =
        idx + 8 * run.accepted.length := by omega
    have hold := hresult.writes.window_eq (Nat.le_of_eq hend) (by omega)
    have hwindow := Ring.window_append size ring'.buff.byteAt
      (idx + 8 * run.delivered.length)
      (8 * (run.accepted.length - run.delivered.length)) (8 * words)
    rw [hend, hold] at hwindow
    show run.accepted ++ _ = run.delivered ++ wordsOf .little
      (Ring.window size ring'.buff.byteAt _ (8 * ((run.accepted ++ _).length - _)))
    rw [hlen, hcount, hwindow, wordsOf_append .little (by
      rw [Ring.length_window]
      exact Nat.dvd_mul_right 8 _), hresult.held, ← List.append_assoc,
      ← h.held]

theorem Inv.step_get (putOrder getOrder : Endian) {len : Nat}
    (hlen : 8 ∣ len) :
    ∃ run', run.step putOrder getOrder (.get len) = some run' ∧
      Inv size idx run' := by
  obtain ⟨bytes, ring', hget, hresult⟩ := h.ringGet hsize hidx getOrder hlen
  have hle := h.le
  have hroom := h.room
  have hstored := h.stored_eq hsize
  have hdvd : 8 ∣ min len run.stored := by omega
  obtain ⟨words, hwords⟩ := hdvd
  have hfits : 8 * words ≤ run.stored := by omega
  rw [hwords] at hresult hget
  have hcount : (run.delivered ++ wordsOf getOrder bytes).length =
      run.delivered.length + words := by
    rw [List.length_append, length_wordsOf, hresult.length_eq,
      Nat.mul_div_cancel_left words (by decide)]
  have hstep : run.step putOrder getOrder (.get len) = some {
      run with
      ring := ring'
      delivered := run.delivered ++ wordsOf getOrder bytes } := by
    rw [step, hget]
    rfl
  refine ⟨_, hstep, ?_, ?_, ?_⟩
  · have hheader := hresult.header
    rw [Nat.add_assoc, ← Nat.mul_add, ← hcount] at hheader
    exact hheader
  · show run.accepted.length * 8 ≤ (run.delivered ++ _).length * 8 + size
    rw [hcount]
    omega
  · -- what is delivered is the first part of the window
    have hsplit : 8 * (run.accepted.length - run.delivered.length) =
        8 * words +
          8 * (run.accepted.length - (run.delivered.length + words)) := by
      omega
    have hheld := h.held
    rw [hsplit, Ring.window_append, wordsOf_append .little (by
      rw [Ring.length_window]
      exact Nat.dvd_mul_right 8 _), ← hresult.held, ← List.append_assoc,
      Nat.add_assoc, ← Nat.mul_add, ← hcount, ← hresult.buff_eq] at hheld
    exact hheld

end Invariant

section Theorem

variable {size idx : Nat} (putOrder getOrder : Endian)

/-- Between calls the ring is a queue. -/
theorem Inv.fifo {run : RingRun} (h : Inv size idx run)
    (hsize : RingSize size) (hidx : 8 ∣ idx) :
    Fifo putOrder getOrder size run where
  bounded := by
    have hroom := h.room
    rw [h.stored_eq hsize]
    omega
  stored_eq := h.stored_eq hsize
  delivered_prefix := ⟨_, h.held.symm⟩
  put := by
    intro buff hvalid
    obtain ⟨ring', heq, -⟩ := h.ringPut hsize hidx putOrder hvalid.1
    exact ⟨ring', heq⟩
  get := by
    intro len hvalid
    obtain ⟨bytes, ring', heq, hresult⟩ :=
      h.ringGet hsize hidx getOrder hvalid.1
    exact ⟨bytes, ring', heq, hresult.length_eq⟩

theorem Inv.step {run : RingRun} (h : Inv size idx run)
    (hsize : RingSize size) (hidx : 8 ∣ idx) {op : RingOp} (hop : op.Valid) :
    ∃ run', run.step putOrder getOrder op = some run' ∧ Inv size idx run' := by
  cases op with
  | put buff => exact h.step_put hsize hidx putOrder getOrder hop.1
  | get len => exact h.step_get hsize hidx putOrder getOrder hop.1

theorem Inv.run {run : RingRun} (h : Inv size idx run)
    (hsize : RingSize size) (hidx : 8 ∣ idx) (ops : List RingOp)
    (hops : ∀ op ∈ ops, op.Valid) :
    ∃ run', ops.foldlM (RingRun.step putOrder getOrder) run = some run' ∧
      Inv size idx run' := by
  induction ops generalizing run with
  | nil => exact ⟨run, rfl, h⟩
  | cons op ops ih =>
      obtain ⟨next, hstep, hnext⟩ := h.step putOrder getOrder hsize hidx
        (hops op List.mem_cons_self)
      rw [List.foldlM_cons, hstep]
      exact ih hnext fun other hother => hops other (List.mem_cons_of_mem op hother)

/-- Every history of puts and gets stays inside the array and leaves a queue,
for either byte order of either side. -/
theorem fifo_of_run (hsize : RingSize size) (hidx : 8 ∣ idx)
    (hlt : idx < 2 ^ 64) (buff : RingBytes) (ops : List RingOp)
    (hops : ∀ op ∈ ops, op.Valid) :
    ∃ run, ops.foldlM (RingRun.step putOrder getOrder)
        (start size idx buff) = some run ∧
      Fifo putOrder getOrder size run := by
  obtain ⟨run, hrun, hinv⟩ :=
    (Inv.start hlt buff).run putOrder getOrder hsize hidx ops hops
  exact ⟨run, hrun, hinv.fifo putOrder getOrder hsize hidx⟩

/-- A ring of two words whose indexes are about to wrap, and three words that
go through it: the second put is cut, and split at the end of the buffer. -/
theorem fifo_of_run_wrapping :
    ∃ run, [RingOp.put [1, 2, 3, 4, 5, 6, 7, 8], .get 8,
          .put [1, 1, 1, 1, 1, 1, 1, 1, 2, 2, 2, 2, 2, 2, 2, 2,
            3, 3, 3, 3, 3, 3, 3, 3], .get 16].foldlM
          (RingRun.step .big .little)
          (start 16 (2 ^ 64 - 16) fun _ => 0) = some run ∧
      Fifo .big .little 16 run := by
  refine fifo_of_run .big .little ⟨4, by decide⟩ (by decide) (by decide) _ _ ?_
  intro op hop
  simp only [List.mem_cons, List.not_mem_nil, or_false] at hop
  obtain rfl | rfl | rfl | rfl := hop
  · exact ⟨by decide, by decide⟩
  · exact ⟨by decide, by decide⟩
  · exact ⟨by decide, by decide⟩
  · exact ⟨by decide, by decide⟩

end Theorem

end RingRun

end Barley
