import CaliperAggregate.Proofs.Refinement
import CaliperAggregate.Proofs.PreemptRuns
import CaliperAggregate.Proofs.Signal
import CaliperAggregate.Proofs.BlockBound

/-!
# The kernel counter over many calls

`find_entry` advances `m_num_kernel_entries` by `|m_aggr_attributes|` before it fetches a node's
kernels, and keeps the advance when a fetch fails. In signal context a fetch fails whenever the
kernel's block is missing, so a snapshot whose node has no kernels can be dropped again and again,
each time moving the counter on (`runCalls_replicate_missing`).

On a database with 512 aggregated attributes, where `AggregateDB(c)` brought in the first kernel
block and every call runs in signal context, after the counter reaches `2^21` the next call's
first fetch is `m_kernels.get(2^21 + 1, false)`, whose block is `MAX_BLOCKS`: `block > MAX_BLOCKS`
lets it through to `m_blocks[MAX_BLOCKS]`, one past the array (`kernels_get_block_past_array`).

With 1025 aggregated attributes the first ids move on by one block and one id and step over block
`MAX_BLOCKS`, so the counter can run past `2^32` with no such read. Once it does, the cast to
`uint32_t` at line 235 hands the next node `first_id = 5`, inside the kernels another node already
holds (`kernels_shared_after_wrap`).
-/

namespace CaliperAggregate

namespace AggregateDB

variable {V : Type} [DoubleOps V] [Add V] [Zero V]

omit [Add V] in
/-- Fetching kernels without allocating stops at once, changing nothing, when the first id's block
is missing and is not `MAX_BLOCKS`. -/
theorem getKernels_first_missing {first : UInt32} {ks : BlockAlloc (AggregateKernel V)}
    (hb : ¬ ks.Allocated first.toNat) (hm : first.toNat / entriesPerBlock ≠ maxBlocks)
    (is : List Nat) : getKernels first false ks (0 :: is) = (false, ks) := by
  have h0 : (first + 0).toNat = first.toNat := by
    rw [toNat_uint32_add]
    exact Nat.mod_eq_of_lt first.toBitVec.isLt
  simp [getKernels, h0, BlockAlloc.get_false_missing hb hm]

/-- A signal-context ingest whose key reaches a node without kernels, when the block of the next
kernel id is missing and is not `MAX_BLOCKS`: the kernel counter advances by
`|m_aggr_attributes|`, the snapshot is dropped, and nothing else changes. -/
theorem processSnapshot_kernels_missing {db : AggregateDB V} {cfg : Config} {c : Host}
    {snap : SnapshotRecord V} {y : Nat} (hne : ¬ IsEmpty snap) (hsig : c.isSignal = true)
    (hl : lookup db.trie (buildKey cfg c snap).key = some y) (hk : (db.node y).kId = noKernels)
    (hA : 0 < db.aggrAttributes.length) (hL : (buildKey cfg c snap).key.length ≤ db.maxKeylen)
    (hb : ¬ db.kernels.Allocated (UInt32.ofNat (db.numKernelEntries + 1)).toNat)
    (hm : (UInt32.ofNat (db.numKernelEntries + 1)).toNat / entriesPerBlock ≠ maxBlocks) :
    db.processSnapshot cfg c snap = { db with
      numKernelEntries := db.numKernelEntries + db.aggrAttributes.length,
      numDropped := db.numDropped + 1 } := by
  unfold processSnapshot
  rw [if_neg hne]
  dsimp only
  rw [max_eq_right hL,
    findEntry_of_lookup (show lookup { db with maxKeylen := db.maxKeylen }.trie _ = some y from hl)]
  obtain ⟨A, hA'⟩ := Nat.exists_eq_add_of_lt hA
  simp only [allocKernels, hk, hA, and_self, if_true, hsig, Bool.not_true]
  rw [Nat.zero_add] at hA'
  rw [hA', List.range_succ_eq_map, getKernels_first_missing hb hm]
  rfl

/-- Repeating, `n` times, such an ingest: while each next kernel id's block is missing and is not
`MAX_BLOCKS`, the kernel counter advances by `|m_aggr_attributes|` each time and every snapshot is
dropped. -/
theorem runCalls_replicate_missing (k : Call V) (hne : ¬ IsEmpty k.snap)
    (hsig : k.host.isSignal = true) :
    ∀ (n : Nat) {db : AggregateDB V} {y : Nat},
      lookup db.trie (buildKey k.cfg k.host k.snap).key = some y → (db.node y).kId = noKernels →
      0 < db.aggrAttributes.length → (buildKey k.cfg k.host k.snap).key.length ≤ db.maxKeylen →
      (∀ j < n, ¬ db.kernels.Allocated
          (UInt32.ofNat (db.numKernelEntries + j * db.aggrAttributes.length + 1)).toNat ∧
        (UInt32.ofNat (db.numKernelEntries + j * db.aggrAttributes.length + 1)).toNat /
          entriesPerBlock ≠ maxBlocks) →
      db.runCalls (List.replicate n k) = { db with
        numKernelEntries := db.numKernelEntries + n * db.aggrAttributes.length,
        numDropped := db.numDropped + n }
  | 0, db, _, _, _, _, _, _ => by simp
  | n + 1, db, y, hl, hk, hA, hL, hb => by
    rw [List.replicate_succ, runCalls_cons,
      processSnapshot_kernels_missing hne hsig hl hk hA hL (by simpa using (hb 0 n.succ_pos).1)
        (by simpa using (hb 0 n.succ_pos).2)]
    generalize hdb₁ : { db with
      numKernelEntries := db.numKernelEntries + db.aggrAttributes.length,
      numDropped := db.numDropped + 1 } = db₁
    have ih := runCalls_replicate_missing k hne hsig n
      (show lookup db₁.trie _ = some y from hdb₁ ▸ hl)
      (show (db₁.node y).kId = noKernels from hdb₁ ▸ hk)
      (show 0 < db₁.aggrAttributes.length from hdb₁ ▸ hA)
      (show _ ≤ db₁.maxKeylen from hdb₁ ▸ hL) fun j hj => by
        rw [← hdb₁]
        simpa [Nat.add_assoc, Nat.succ_mul, Nat.add_comm] using hb (j + 1) (by omega)
    rw [ih, ← hdb₁]
    simp only [Nat.succ_mul]
    congr 1 <;> omega

variable {g : Ingest V}

/-- A call whose key reaches a node without kernels, run alone from line 492, comes to its first
kernel fetch with `first_id = m_num_kernel_entries + 1`. -/
theorem reaches_kernel_first {db : AggregateDB V} {y : Nat} (hl : lookup db.trie g.key = some y)
    (hk : (db.node y).kId = noKernels) (hA : 0 < db.aggrAttributes.length) :
    Reaches g (.keylen, db) (.kernel y (UInt32.ofNat (db.numKernelEntries + 1))
      (List.range db.aggrAttributes.length), { db with
        maxKeylen := max g.key.length db.maxKeylen,
        numKernelEntries := db.numKernelEntries + db.aggrAttributes.length }) := by
  obtain ⟨h0, hs⟩ := lookup_eq_some.mp hl
  generalize hdb₁ : { db with maxKeylen := max g.key.length db.maxKeylen } = db₁
  have hroot : db₁.trie.get TrieNode.init 0 g.alloc = (some 0, db₁.trie) := by
    subst hdb₁
    exact BlockAlloc.get_allocated h0 (by decide)
  have hwalk : walk g.alloc db₁ (some 0) g.key = (some y, db₁) :=
    walk_of_lookupFrom g.alloc g.key (by subst hdb₁; exact hs)
  have hk₁ : (db₁.node y).kId = noKernels ∧ 0 < db₁.aggrAttributes.length := by
    subst hdb₁
    exact ⟨hk, hA⟩
  refine Reaches.head_step (by rw [← hdb₁]; rfl) (Reaches.head_step
    (show step g .root db₁ = (.next 0 g.key, db₁) by simp [step, hroot]) ?_)
  refine ((reaches_next g.key db₁ 0).trans ?_)
  rw [hwalk]
  refine Reaches.head_step (show step g (.kId y) db₁ = (.firstId y, db₁) by simp [step, hk₁])
    (Reaches.head_step rfl (Reaches.head_step rfl (Reaches.head_step rfl ?_)))
  subst hdb₁
  exact .refl

theorem runCalls_append (db : AggregateDB V) (l₁ l₂ : List (Call V)) :
    db.runCalls (l₁ ++ l₂) = (db.runCalls l₁).runCalls l₂ :=
  List.foldl_append _ _ _ _

theorem Reachable.runCalls {db : AggregateDB V} (h : Reachable db) :
    ∀ calls : List (Call V), Reachable (db.runCalls calls)
  | [] => h
  | k :: ks => Reachable.runCalls (.processSnapshot k.cfg k.host k.snap h) ks

/-- Signal-context ingests bring in no kernel block. -/
theorem runCalls_signal_kernels_blocks : ∀ (calls : List (Call V)) (db : AggregateDB V),
    (∀ k ∈ calls, k.host.isSignal = true) → (db.runCalls calls).kernels.blocks = db.kernels.blocks
  | [], _, _ => rfl
  | k :: ks, db, h => by
    rw [runCalls_cons, runCalls_signal_kernels_blocks ks _ fun k' hk' => h k' (.tail _ hk')]
    exact (processSnapshot_signal_sameBlocks (h k (.head _)) k.snap db).kernels_blocks

set_option maxRecDepth 100000 in
/-- Two signal-context snapshots on a database with 512 aggregated attributes: node 5's takes
kernels `[1, 512]`, in the block `AggregateDB(c)` brought in; node 6's walks a new edge, advances
the kernel counter to 1024, finds kernel 1024's block missing and is dropped. -/
theorem signal_calls_setup :
    let db₂ := (new (List.replicate 512 9) 0 0 : AggregateDB Float).runCalls
      [⟨⟨0, [], [], 0⟩, ⟨true, fun _ => none⟩, ⟨[⟨⟨5, 7⟩, []⟩], []⟩⟩,
       ⟨⟨0, [], [], 0⟩, ⟨true, fun _ => none⟩, ⟨[⟨⟨6, 7⟩, []⟩], []⟩⟩]
    (buildKey ⟨0, [], [], 0⟩ ⟨true, fun _ => none⟩
      (⟨[⟨⟨6, 7⟩, []⟩], []⟩ : SnapshotRecord Float)).key = [2, 6] ∧
    lookup db₂.trie [2, 5] = some 2 ∧ lookup db₂.trie [2, 6] = some 3 ∧ (db₂.node 2).kId = 1 ∧
    (db₂.node 3).kId = noKernels ∧ db₂.numKernelEntries = 1024 ∧ db₂.maxKeylen = 2 ∧
    db₂.aggrAttributes.length = 512 := by
  decide

/-- In that run only the first kernel block is there. -/
theorem signal_calls_kernel_blocks (calls : List (Call Float))
    (h : ∀ k ∈ calls, k.host.isSignal = true) {j : Nat} (hj : j / entriesPerBlock ≠ 0) :
    ¬ ((new (List.replicate 512 9) 0 0 : AggregateDB Float).runCalls calls).kernels.Allocated j := by
  rw [BlockAlloc.Allocated, runCalls_signal_kernels_blocks calls _ h]
  show ¬ ((BlockAlloc.new (AggregateKernel.init : AggregateKernel Float) 0).get
    AggregateKernel.init 0 true).2.blocks (j / entriesPerBlock) = true
  simp [BlockAlloc.get, BlockAlloc.new, BlockAlloc.install, maxBlocks, hj]

/-- With the counter at 1024 and only the first kernel block there, each of the next 4094 first
kernel ids lies in a missing block below `MAX_BLOCKS`. -/
theorem first_kernel_ids_missing {db : AggregateDB Float} (hN : db.numKernelEntries = 1024)
    (hA : db.aggrAttributes.length = 512)
    (hblk : ∀ j, j / entriesPerBlock ≠ 0 → ¬ db.kernels.Allocated j) : ∀ j < 4094,
      ¬ db.kernels.Allocated
          (UInt32.ofNat (db.numKernelEntries + j * db.aggrAttributes.length + 1)).toNat ∧
        (UInt32.ofNat (db.numKernelEntries + j * db.aggrAttributes.length + 1)).toNat /
          entriesPerBlock ≠ maxBlocks := by
  intro j hj
  rw [hN, hA, toNat_uint32_ofNat, Nat.mod_eq_of_lt (by omega)]
  exact ⟨hblk _ (by rw [entriesPerBlock]; omega), by rw [entriesPerBlock, maxBlocks]; omega⟩

/-- `block > MAX_BLOCKS` lets the block `MAX_BLOCKS` through. On a database with 512 aggregated
attributes, after a signal-context snapshot of node 5 and 4095 of node 6, the kernel counter is
`2^21`, and the next snapshot of node 6, run alone from line 492, comes to
`m_kernels.get(2^21 + 1, false)`, whose block is `MAX_BLOCKS`: it reads `m_blocks[MAX_BLOCKS]`,
one past the array. -/
theorem kernels_get_block_past_array :
    let y : Call Float := ⟨⟨0, [], [], 0⟩, ⟨true, fun _ => none⟩, ⟨[⟨⟨6, 7⟩, []⟩], []⟩⟩
    let db := (new (List.replicate 512 9) 0 0 : AggregateDB Float).runCalls
      (⟨⟨0, [], [], 0⟩, ⟨true, fun _ => none⟩, ⟨[⟨⟨5, 7⟩, []⟩], []⟩⟩ :: List.replicate 4095 y)
    Reachable db ∧ ∃ s, Reaches (ingestOf y.cfg y.host y.snap) (.keylen, db) s ∧
      s.1.getId s.2 = some (2 ^ 21 + 1) ∧ (2 ^ 21 + 1) / entriesPerBlock = maxBlocks := by
  dsimp only
  refine ⟨(Reachable.new _ _ _).runCalls _, ?_⟩
  obtain ⟨hkey, -, h6, -, hk3, hN, hM, hA⟩ := signal_calls_setup
  have hblk := fun j => signal_calls_kernel_blocks
    [⟨⟨0, [], [], 0⟩, ⟨true, fun _ => none⟩, ⟨[⟨⟨5, 7⟩, []⟩], []⟩⟩,
      ⟨⟨0, [], [], 0⟩, ⟨true, fun _ => none⟩, ⟨[⟨⟨6, 7⟩, []⟩], []⟩⟩] (by decide) (j := j)
  rw [show 4095 = 1 + 4094 from rfl, List.replicate_add, ← List.cons_append, runCalls_append,
    List.replicate_one]
  generalize (new (List.replicate 512 9) 0 0 : AggregateDB Float).runCalls
    [⟨⟨0, [], [], 0⟩, ⟨true, fun _ => none⟩, ⟨[⟨⟨5, 7⟩, []⟩], []⟩⟩,
      ⟨⟨0, [], [], 0⟩, ⟨true, fun _ => none⟩, ⟨[⟨⟨6, 7⟩, []⟩], []⟩⟩] = db₂ at hkey h6 hk3 hN hM hA hblk ⊢
  rw [runCalls_replicate_missing _ (by decide) rfl 4094 (hkey ▸ h6) hk3 (by rw [hA]; decide)
    (by rw [hkey, hM]; rfl) (first_kernel_ids_missing hN hA hblk)]
  refine ⟨_, reaches_kernel_first (by simp only [ingestOf, hkey]; exact h6) hk3
    (by rw [hA]; decide), ?_, by decide⟩
  rw [hN, hA, show 512 = 511 + 1 from rfl, List.range_succ_eq_map]
  rfl

set_option maxRecDepth 100000 in
/-- The two ends of the wrap run, computed. Two snapshots on a database with 1025 aggregated
attributes: outside a signal handler node 5's takes kernels `[1, 1025]`, which brings in kernel
block 1; in signal context node 6's walks a new edge, advances the kernel counter to 2050, finds
kernel 2048's block missing and is dropped. From there, with the counter moved on to `2^32 + 4`,
node 6's next snapshot takes kernels `[5, 1029]`. -/
theorem wrap_calls_ends :
    let y : Call Float := ⟨⟨0, [], [], 0⟩, ⟨true, fun _ => none⟩, ⟨[⟨⟨6, 7⟩, []⟩], []⟩⟩
    let db₁ := (new (List.replicate 1025 9) 0 0 : AggregateDB Float).runCalls
      [⟨⟨0, [], [], 0⟩, ⟨false, fun _ => none⟩, ⟨[⟨⟨5, 7⟩, []⟩], []⟩⟩]
    let db₂ := db₁.runCalls [y]
    let db₃ := AggregateDB.runCalls { db₂ with
      numKernelEntries := 2050 + 4190210 * 1025, numDropped := db₂.numDropped + 4190210 } [y]
    db₁.numKernelEntries = 1025 ∧ (buildKey y.cfg y.host y.snap).key = [2, 6] ∧
    lookup db₂.trie [2, 6] = some 3 ∧ (db₂.node 3).kId = noKernels ∧
    db₂.numKernelEntries = 2050 ∧ db₂.maxKeylen = 2 ∧ db₂.aggrAttributes.length = 1025 ∧
    db₃.InBounds ∧ db₃.aggrAttributes.length = 1025 ∧ lookup db₃.trie [2, 5] = some 2 ∧
    lookup db₃.trie [2, 6] = some 3 ∧ (db₃.node 2).kId = 1 ∧ (db₃.node 3).kId = 5 := by
  decide!

/-- With the counter at 2050 and no kernel block past block 1, each of the next 4190210 first
kernel ids lies in a missing block other than `MAX_BLOCKS`: they move on by one block and one id,
and step over block 2048. -/
theorem wrap_first_ids_missing {db : AggregateDB Float} (hN : db.numKernelEntries = 2050)
    (hA : db.aggrAttributes.length = 1025)
    (hblk : ∀ j, 1 < j / entriesPerBlock → ¬ db.kernels.Allocated j) : ∀ j < 4190210,
      ¬ db.kernels.Allocated
          (UInt32.ofNat (db.numKernelEntries + j * db.aggrAttributes.length + 1)).toNat ∧
        (UInt32.ofNat (db.numKernelEntries + j * db.aggrAttributes.length + 1)).toNat /
          entriesPerBlock ≠ maxBlocks := by
  intro j hj
  rw [hN, hA, toNat_uint32_ofNat, Nat.mod_eq_of_lt (by omega)]
  exact ⟨hblk _ (by rw [entriesPerBlock]; omega), by rw [entriesPerBlock, maxBlocks]; omega⟩

/-- The cast at line 235 wraps. On a database with 1025 aggregated attributes, node 5's snapshot
outside a signal handler, then 4190211 of node 6's in signal context, all dropped, bring the
kernel counter to `2^32 + 4`, and no fetch on the way reads `m_blocks[MAX_BLOCKS]`. The next
snapshot of node 6 gets `first_id = 5`, finds kernels `[5, 1029]` in the blocks the first call
brought in, and keeps them: node 6's key trie node holds kernels of node 5's. -/
theorem kernels_shared_after_wrap :
    let y : Call Float := ⟨⟨0, [], [], 0⟩, ⟨true, fun _ => none⟩, ⟨[⟨⟨6, 7⟩, []⟩], []⟩⟩
    let db := (new (List.replicate 1025 9) 0 0 : AggregateDB Float).runCalls
      (⟨⟨0, [], [], 0⟩, ⟨false, fun _ => none⟩, ⟨[⟨⟨5, 7⟩, []⟩], []⟩⟩ :: List.replicate 4190212 y)
    Reachable db ∧ db.InBounds ∧ db.aggrAttributes.length = 1025 ∧
      lookup db.trie [2, 5] = some 2 ∧ lookup db.trie [2, 6] = some 3 ∧ (db.node 2).kId = 1 ∧
      (db.node 3).kId = 5 := by
  dsimp only
  refine ⟨(Reachable.new _ _ _).runCalls _, ?_⟩
  obtain ⟨hN₁, hkey, h6, hk3, hN, hM, hA, hend⟩ := wrap_calls_ends
  -- after node 5's call the kernel blocks are within the counter's block, and node 6's first
  -- call brings in none
  have hW := ((Reachable.new (V := Float) (List.replicate 1025 9) 0 0).runCalls
    [⟨⟨0, [], [], 0⟩, ⟨false, fun _ => none⟩, ⟨[⟨⟨5, 7⟩, []⟩], []⟩⟩]).bounded.kernels
  rw [hN₁] at hW
  have hblk : ∀ j, 1 < j / entriesPerBlock → ¬ (((new (List.replicate 1025 9) 0 0 :
      AggregateDB Float).runCalls [⟨⟨0, [], [], 0⟩, ⟨false, fun _ => none⟩, ⟨[⟨⟨5, 7⟩, []⟩], []⟩⟩]).runCalls
        [⟨⟨0, [], [], 0⟩, ⟨true, fun _ => none⟩, ⟨[⟨⟨6, 7⟩, []⟩], []⟩⟩]).kernels.Allocated j := by
    intro j hj ha
    rw [BlockAlloc.Allocated, runCalls_signal_kernels_blocks _ _ (by decide)] at ha
    exact absurd (hW.allocated ha) (by rw [entriesPerBlock] at hj ⊢; omega)
  -- the calls split as the setup, the dropped calls, and the last call
  rw [show 4190212 = 1 + 4190210 + 1 from rfl, List.replicate_add, List.replicate_add,
    List.replicate_one, ← List.cons_append, ← List.cons_append, runCalls_append, runCalls_append,
    show ∀ (a b : Call Float), [a, b] = [a] ++ [b] from fun _ _ => rfl, runCalls_append,
    runCalls_replicate_missing _ (by decide) rfl _ (hkey ▸ h6) hk3
      (by rw [hA]; decide) (by rw [hkey, hM]; rfl) (wrap_first_ids_missing hN hA hblk), hN, hA]
  exact hend

end AggregateDB

end CaliperAggregate
