/-
The shape of the session table: every bucket is a chain of buffers of the pool
behind its head, no buffer is both linked and free, and every session knows its
bucket.  Linking, unlinking and freeing keep it.
-/
import Barley.SsnTable

namespace Barley

open Linked

/-- `chains` are the sessions linked behind the heads. -/
structure SsnTable.Sound (bufs : Nat) (table : SsnTable)
    (chains : Nat → List SsnPtr) : Prop where
  chain : ∀ i, Chain table.next (table.next (.head i)) (chains i)
  buffers : ∀ i, ∀ p ∈ chains i, ∃ number < bufs, p = .buffer number
  index : ∀ i, ∀ p ∈ chains i, (table.ssn p).ssnIndex = i
  headIndex : ∀ i, (table.ssn (.head i)).empty = false →
    (table.ssn (.head i)).ssnIndex = i
  poolNodup : table.pool.Nodup
  pool : ∀ p ∈ table.pool,
    (∃ number < bufs, p = .buffer number) ∧ ∀ i, p ∉ chains i

namespace SsnTable

variable {bufs : Nat} {table table' : SsnTable} {chains : Nat → List SsnPtr}
  {p : SsnPtr} {i : Nat}

@[simp] theorem ssn_set (table : SsnTable) (p : SsnPtr) (node : SsnNode) :
    (table.set p node).ssn = Function.update table.ssn p node := rfl

theorem next_set (table : SsnTable) (p : SsnPtr) (node : SsnNode) :
    (table.set p node).next = Function.update table.next p node.nextSc := by
  funext q
  rw [next, ssn_set, Function.apply_update (fun _ => SsnNode.nextSc)]
  rfl

section Shape

theorem Sound.head_notMem (h : table.Sound bufs chains) (j i : Nat) :
    SsnPtr.head j ∉ chains i := by
  intro hmem
  obtain ⟨number, -, hnumber⟩ := h.buffers i _ hmem
  nomatch hnumber

theorem Sound.length_le (h : table.Sound bufs chains) (i : Nat) :
    (chains i).length ≤ bufs := by
  have hsubset : chains i ⊆ (List.range bufs).map SsnPtr.buffer := by
    intro p hp
    obtain ⟨number, hlt, rfl⟩ := h.buffers i p hp
    exact List.mem_map_of_mem (List.mem_range.2 hlt)
  have hle := (List.subperm_of_subset (h.chain i).nodup hsubset).length_le
  rwa [List.length_map, List.length_range] at hle

theorem Sound.chain_eq (h : table.Sound bufs chains) (i : Nat) :
    table.chain bufs i = chains i :=
  follow_eq (h.chain i) (h.length_le i)

/-- The head and the nodes behind it. -/
theorem Sound.bucket (h : table.Sound bufs chains) (i : Nat) :
    Chain table.next (some (.head i)) (.head i :: chains i) :=
  ⟨rfl, h.chain i⟩

theorem Sound.notMem_pool (h : table.Sound bufs chains) (hp : p ∈ chains i) :
    p ∉ table.pool :=
  fun hpool => (h.pool p hpool).2 i hp

theorem Sound.eq_of_mem (h : table.Sound bufs chains) {j : Nat}
    (hi : p ∈ chains i) (hj : p ∈ chains j) : i = j :=
  (h.index i p hi).symm.trans (h.index j p hj)

end Shape

section Updates

/-- Setting fields other than the link. -/
theorem Sound.set (h : table.Sound bufs chains) {node : SsnNode}
    (hnext : node.nextSc = table.next p)
    (hchain : ∀ i, p ∈ chains i → node.ssnIndex = i)
    (hhead : ∀ i, p = .head i → node.empty = false → node.ssnIndex = i) :
    (table.set p node).Sound bufs chains := by
  have hsame : (table.set p node).next = table.next := by
    rw [next_set, hnext, Function.update_eq_self]
  refine ⟨?_, h.buffers, ?_, ?_, h.poolNodup, h.pool⟩
  · rw [hsame]
    exact h.chain
  · intro i q hq
    by_cases hpq : q = p
    · rw [hpq, ssn_set, Function.update_self]
      exact hchain i (hpq ▸ hq)
    · rw [ssn_set, Function.update_of_ne hpq]
      exact h.index i q hq
  · intro i
    by_cases hpq : SsnPtr.head i = p
    · rw [hpq, ssn_set, Function.update_self]
      exact hhead i hpq.symm
    · rw [ssn_set, Function.update_of_ne hpq]
      exact h.headIndex i

theorem Sound.of_eq (h : table.Sound bufs chains)
    (hssn : table'.ssn = table.ssn) (hpool : table'.pool = table.pool) :
    table'.Sound bufs chains := by
  have hnext : table'.next = table.next := by
    funext q
    rw [next, hssn]
    rfl
  refine ⟨?_, h.buffers, ?_, ?_, ?_, ?_⟩
  · rw [hnext]
    exact h.chain
  · rw [hssn]
    exact h.index
  · rw [hssn]
    exact h.headIndex
  · rw [hpool]
    exact h.poolNodup
  · rw [hpool]
    exact h.pool

theorem Sound.addActive (h : table.Sound bufs chains) (value : Int) :
    (table.addActive value).Sound bufs chains :=
  h.of_eq rfl rfl

theorem Sound.addTimer (h : table.Sound bufs chains) (p : SsnPtr) :
    (table.addTimer p).Sound bufs chains :=
  h.of_eq rfl rfl

theorem Sound.release (h : table.Sound bufs chains) (entry : SsnRelease) :
    (table.release entry).Sound bufs chains :=
  h.of_eq rfl rfl

theorem Sound.free (h : table.Sound bufs chains)
    (hbuffer : ∃ number < bufs, p = .buffer number)
    (hchains : ∀ i, p ∉ chains i) (hpool : p ∉ table.pool) :
    (table.fpaFree p).Sound bufs chains := by
  refine ⟨h.chain, h.buffers, h.index, h.headIndex, ?_, ?_⟩
  · exact List.nodup_cons.2 ⟨hpool, h.poolNodup⟩
  · intro q hq
    rcases List.mem_cons.1 hq with rfl | hq
    · exact ⟨hbuffer, hchains⟩
    · exact h.pool q hq

theorem Sound.takeBuffer (h : table.Sound bufs chains) (p : SsnPtr) :
    (table.takeBuffer p).Sound bufs chains := by
  refine ⟨h.chain, h.buffers, h.index, h.headIndex, h.poolNodup.erase p, ?_⟩
  intro q hq
  exact h.pool q (List.mem_of_mem_erase hq)

/-- What only relinks nodes leaves everything else of them alone. -/
structure Relinked (table table' : SsnTable) : Prop where
  ssn : ∀ q, ∃ link, table'.ssn q = { table.ssn q with nextSc := link }
  pool : table'.pool = table.pool
  timers : table'.timers = table.timers
  activeNum : table'.activeNum = table.activeNum
  released : table'.released = table.released

theorem relinked_set (table : SsnTable) (p : SsnPtr) (link : Option SsnPtr) :
    table.Relinked (table.set p { table.ssn p with nextSc := link }) := by
  refine ⟨?_, rfl, rfl, rfl, rfl⟩
  intro q
  rw [ssn_set]
  by_cases hpq : q = p
  · rw [hpq, Function.update_self]
    exact ⟨link, rfl⟩
  · rw [Function.update_of_ne hpq]
    exact ⟨(table.ssn q).nextSc, rfl⟩

theorem Relinked.ssnIndex (h : table.Relinked table') (q : SsnPtr) :
    (table'.ssn q).ssnIndex = (table.ssn q).ssnIndex := by
  obtain ⟨link, hlink⟩ := h.ssn q
  rw [hlink]

theorem Relinked.empty (h : table.Relinked table') (q : SsnPtr) :
    (table'.ssn q).empty = (table.ssn q).empty := by
  obtain ⟨link, hlink⟩ := h.ssn q
  rw [hlink]

theorem Relinked.key (h : table.Relinked table') (q : SsnPtr) :
    (table'.ssn q).key = (table.ssn q).key := by
  obtain ⟨link, hlink⟩ := h.ssn q
  rw [hlink]

/-- A change of one bucket: the other chains are kept by what is written. -/
theorem Sound.update_chain (h : table.Sound bufs chains)
    {nodes : List SsnPtr} {next' : SsnPtr → Option SsnPtr}
    (hchain : Chain next' (next' (.head i)) nodes)
    (hother : ∀ j ≠ i, ∀ q ∈ SsnPtr.head j :: chains j,
      next' q = table.next q) (j : Nat) :
    Chain next' (next' (.head j)) (Function.update chains i nodes j) := by
  by_cases hj : j = i
  · rw [hj, Function.update_self]
    exact hchain
  · rw [Function.update_of_ne hj, hother j hj _ List.mem_cons_self]
    exact (h.chain j).congr fun q hq =>
      hother j hj q (List.mem_cons_of_mem _ hq)

theorem mem_of_mem_update_erase {q : SsnPtr} {j : Nat}
    (hq : q ∈ Function.update chains i ((chains i).erase p) j) :
    q ∈ chains j := by
  by_cases hj : j = i
  · rw [hj, Function.update_self] at hq
    exact hj ▸ List.mem_of_mem_erase hq
  · rwa [Function.update_of_ne hj] at hq

theorem mem_of_mem_update_cons {q : SsnPtr} {j : Nat}
    (hq : q ∈ Function.update chains i (p :: chains i) j) :
    (q = p ∧ j = i) ∨ q ∈ chains j := by
  by_cases hj : j = i
  · rw [hj, Function.update_self] at hq
    rcases List.mem_cons.1 hq with rfl | hq
    · exact Or.inl ⟨rfl, hj⟩
    · exact Or.inr (hj ▸ hq)
  · rw [Function.update_of_ne hj] at hq
    exact Or.inr hq

/-- No session is in two buckets, the heads included. -/
theorem Sound.eq_of_mem_bucket (h : table.Sound bufs chains) {q : SsnPtr}
    {j : Nat} (hi : q ∈ SsnPtr.head i :: chains i)
    (hj : q ∈ SsnPtr.head j :: chains j) : j = i := by
  rcases List.mem_cons.1 hi with rfl | hi
  · rcases List.mem_cons.1 hj with heq | hj
    · exact (SsnPtr.head.inj heq).symm
    · exact absurd hj (h.head_notMem i j)
  · rcases List.mem_cons.1 hj with rfl | hj
    · exact absurd hi (h.head_notMem j i)
    · exact h.eq_of_mem hj hi

/-- A new buffer behind the head of a bucket. -/
theorem Sound.link (h : table.Sound bufs chains) {node : SsnNode}
    (hbuffer : ∃ number < bufs, p = .buffer number)
    (hchains : ∀ i, p ∉ chains i) (hpool : p ∉ table.pool)
    (hnext : node.nextSc = table.next (.head i)) (hindex : node.ssnIndex = i) :
    ((table.set p node).set (.head i)
      { table.ssn (.head i) with nextSc := some p }).Sound bufs
      (Function.update chains i (p :: chains i)) := by
  have hne : ∀ j, SsnPtr.head j ≠ p := by
    rintro j rfl
    obtain ⟨number, -, hnumber⟩ := hbuffer
    nomatch hnumber
  refine ⟨?_, ?_, ?_, ?_, h.poolNodup, ?_⟩
  · rw [next_set, next_set]
    refine h.update_chain ?_ ?_
    · refine (h.chain i).insert (hchains i) (h.head_notMem i i) ?_ (hne i)
      rw [hnext]
    · intro j hj q hq
      have hhead : q ≠ .head i := by
        rintro rfl
        exact hj (h.eq_of_mem_bucket List.mem_cons_self hq)
      have hp : q ≠ p := by
        rintro rfl
        rcases List.mem_cons.1 hq with heq | hq
        · exact hne j heq.symm
        · exact hchains j hq
      rw [Function.update_of_ne hhead, Function.update_of_ne hp]
  · intro j q hq
    rcases mem_of_mem_update_cons hq with ⟨rfl, -⟩ | hq
    · exact hbuffer
    · exact h.buffers j q hq
  · intro j q hq
    rcases mem_of_mem_update_cons hq with ⟨rfl, hj⟩ | hold
    · rw [ssn_set, ssn_set, Function.update_of_ne (hne i).symm,
        Function.update_self, hindex, hj]
    · have hhead : q ≠ .head i := ne_of_mem_of_not_mem hold (h.head_notMem i j)
      have hp : q ≠ p := ne_of_mem_of_not_mem hold (hchains j)
      rw [ssn_set, ssn_set, Function.update_of_ne hhead,
        Function.update_of_ne hp]
      exact h.index j q hold
  · intro j
    by_cases hj : j = i
    · rw [hj, ssn_set, Function.update_self]
      exact h.headIndex i
    · rw [ssn_set, ssn_set, Function.update_of_ne fun heq =>
        hj (SsnPtr.head.inj heq), Function.update_of_ne (hne j)]
      exact h.headIndex j
  · intro q hq
    refine ⟨(h.pool q hq).1, ?_⟩
    intro j hqj
    rcases mem_of_mem_update_cons hqj with ⟨rfl, -⟩ | hqj
    · exact hpool hq
    · exact (h.pool q hq).2 j hqj

/-- The loop of the purges finds the node before the session and gives it the
link of the session. -/
theorem Sound.unlink_eq (h : table.Sound bufs chains) (hp : p ∈ chains i) :
    ∃ previous ∈ SsnPtr.head i :: chains i,
      table.unlink bufs p = some (table.set previous
        { table.ssn previous with nextSc := table.next p }) ∧
      Chain (Function.update table.next previous (table.next p))
        (Function.update table.next previous (table.next p) (.head i))
        ((chains i).erase p) := by
  obtain ⟨front, back, hsplit⟩ := List.append_of_mem hp
  have hbucket := h.bucket i
  have hlength := h.length_le i
  have hnodup := (h.chain i).nodup
  have herase : (chains i).erase p = front ++ back := by
    rw [hsplit] at hnodup ⊢
    have hfront : p ∉ front := fun hmem =>
      (List.nodup_append.1 hnodup).2.2 p hmem p List.mem_cons_self rfl
    rw [List.erase_append_right _ hfront, List.erase_cons_head]
  have hsearch : search table.next (fun q => decide (table.next q = some p))
      (bufs + 2) (some (.head i)) =
      some ((SsnPtr.head i :: chains i).find? fun q =>
        decide (table.next q = some p)) :=
    search_eq_find hbucket (Nat.lt_succ_of_le (Nat.succ_le_succ hlength))
  rw [hsplit, ← List.cons_append] at hbucket hsearch
  rw [hbucket.find_previous] at hsearch
  refine ⟨(SsnPtr.head i :: front).getLast (List.cons_ne_nil _ _), ?_, ?_, ?_⟩
  · rw [hsplit, ← List.cons_append]
    exact List.mem_append_left _ (List.getLast_mem _)
  · rw [SsnTable.unlink, h.index i p hp]
    simp only [hsearch]
  · rw [herase]
    exact hbucket.unlink.2

/-- Unlinking takes exactly the given session out of its bucket. -/
theorem Sound.unlink (h : table.Sound bufs chains) (hp : p ∈ chains i) :
    ∃ table', table.unlink bufs p = some table' ∧ table.Relinked table' ∧
      table'.Sound bufs
        (Function.update chains i ((chains i).erase p)) := by
  obtain ⟨previous, hprevious, hunlink, hkept⟩ := h.unlink_eq hp
  have hrelinked := relinked_set table previous (table.next p)
  refine ⟨_, hunlink, hrelinked, ?_, ?_, ?_, ?_, ?_, ?_⟩
  · rw [next_set]
    refine h.update_chain hkept ?_
    intro j hj q hq
    refine Function.update_of_ne ?_ _ _
    rintro rfl
    exact hj (h.eq_of_mem_bucket hprevious hq)
  · intro j q hq
    exact h.buffers j q (mem_of_mem_update_erase hq)
  · intro j q hq
    rw [hrelinked.ssnIndex]
    exact h.index j q (mem_of_mem_update_erase hq)
  · intro j
    rw [hrelinked.empty, hrelinked.ssnIndex]
    exact h.headIndex j
  · exact h.poolNodup
  · intro q hq
    exact ⟨(h.pool q hq).1, fun j hmem =>
      (h.pool q hq).2 j (mem_of_mem_update_erase hmem)⟩

end Updates

end SsnTable
end Barley
