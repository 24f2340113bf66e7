import CaliperAggregate.Database

/-!
# What `num_blocks()` counts

`m_num_blocks` has no initialiser and `BlockAlloc()` sets only `m_blocks`, so the count starts
from whatever the memory held. After that `get` adds one for each block it brings in, and `clear`
sets it to 0 (`numBlocks_run`). So it equals the number of set entries of `m_blocks` only from
zeroed memory or after a `clear`, and only while no `get` has read `m_blocks[MAX_BLOCKS]`, which
is the count itself (`numBlocks_counterexamples`).
-/

namespace CaliperAggregate

namespace BlockAlloc

variable {α : Type}

/-- How many of `m_blocks[0, k)` are set. -/
def setBelow (m : BlockAlloc α) (k : Nat) : Nat := ((List.range k).filter m.blocks).length

/-- The entries of `m_blocks` that are set. -/
def setBlocks (m : BlockAlloc α) : Nat := m.setBelow maxBlocks

/-- A call on an allocator: `get(id, alloc)` or `clear()`. -/
inductive Op where
  | get (id : Nat) (alloc : Bool)
  | clear
  deriving DecidableEq

/-- The allocator after the call. -/
def Op.run (init : α) (m : BlockAlloc α) : Op → BlockAlloc α
  | .get id alloc => (m.get init id alloc).2
  | .clear => m.clear

theorem length_filter_update (f : Nat → Bool) {b : Nat} (hb : f b = false) :
    ∀ k, ((List.range k).filter (Function.update f b true)).length =
      ((List.range k).filter f).length + if b < k then 1 else 0
  | 0 => rfl
  | k + 1 => by
    rw [List.range_succ, List.filter_append, List.filter_append, List.length_append,
      List.length_append, length_filter_update f hb k]
    by_cases hk : k = b
    · subst hk
      simp [hb]
    · simp only [List.filter_cons, List.filter_nil, Function.update_noteq hk]
      split_ifs <;> simp_all <;> omega

/-- `get` brings in at most one block, one of `m_blocks[0, MAX_BLOCKS)`, and counts it. -/
theorem numBlocks_get (m : BlockAlloc α) (init : α) (id : Nat) (alloc : Bool) {base : Nat}
    (h : m.numBlocks = base + m.setBlocks) :
    (m.get init id alloc).2.numBlocks = base + (m.get init id alloc).2.setBlocks := by
  rw [get_snd]
  split_ifs with hc
  · have hb : m.blocks (id / entriesPerBlock) = false := by
      simpa [Allocated] using hc.2.1
    simp only [install_numBlocks, setBlocks, setBelow, install, length_filter_update _ hb,
      if_pos hc.1]
    rw [h, setBlocks, setBelow, Nat.add_assoc]
  · exact h
  · exact h

/-- Along any calls from `BlockAlloc()`, `m_num_blocks` is what the memory held, or 0 once a
`clear` ran, plus the blocks brought in since. This is the code's count on runs in which no `get`
read `m_blocks[MAX_BLOCKS]`; such a read stores a pointer over the count. -/
theorem numBlocks_run (init : α) (n : Nat) (ops : List Op) :
    (ops.foldl (Op.run init) (new init n)).numBlocks =
      (if Op.clear ∈ ops then 0 else n) + (ops.foldl (Op.run init) (new init n)).setBlocks := by
  suffices ∀ (ops : List Op) (m : BlockAlloc α) (base : Nat),
      m.numBlocks = base + m.setBlocks →
      (ops.foldl (Op.run init) m).numBlocks =
        (if Op.clear ∈ ops then 0 else base) + (ops.foldl (Op.run init) m).setBlocks by
    exact this ops _ n (by simp [new, setBlocks, setBelow])
  intro ops
  induction ops with
  | nil => exact fun _ _ h => h
  | cons op ops ih =>
    intro m base h
    cases op with
    | get id alloc =>
      refine (ih _ base (numBlocks_get m init id alloc h)).trans ?_
      simp [Op.run]
    | clear =>
      refine (ih m.clear 0 (by simp [clear, setBlocks, setBelow])).trans ?_
      simp [Op.run]

/-- A database built while its trie allocator's `m_num_blocks` held 5 counts 6 trie blocks and
holds 1; from zeroed memory, a `get` of the first id of block `MAX_BLOCKS` reads
`m_blocks[MAX_BLOCKS]`, the word of `m_num_blocks`, while no entry of `m_blocks` is set. -/
theorem numBlocks_counterexamples :
    (AggregateDB.new [] 5 0 : AggregateDB Float).trie.numBlocks = 6 ∧
    (AggregateDB.new [] 5 0 : AggregateDB Float).trie.setBlocks = 1 ∧
    ((new TrieNode.init 0).get TrieNode.init (maxBlocks * entriesPerBlock) true).2.overrun = true ∧
    ((new TrieNode.init 0).get TrieNode.init (maxBlocks * entriesPerBlock) true).2.setBlocks = 0 := by
  have hb : maxBlocks * entriesPerBlock / entriesPerBlock = maxBlocks := by decide
  refine ⟨rfl, ?_, by simp [get_overrun, hb], ?_⟩
  · show ((List.range maxBlocks).filter (Function.update (fun _ => false) 0 true)).length = 1
    rw [length_filter_update _ rfl, List.filter_false]
    rfl
  · rw [get_snd, hb, if_neg (by simp), if_pos rfl]
    show ((List.range maxBlocks).filter fun _ => false).length = 0
    rw [List.filter_false]
    rfl

end BlockAlloc

end CaliperAggregate
