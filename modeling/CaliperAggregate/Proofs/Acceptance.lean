import CaliperAggregate.Proofs.Refinement
import CaliperAggregate.Proofs.PreemptSafety

/-!
# Which snapshots a run accepts

Run one after another, `process_snapshot` calls never remove or redirect an edge: a key that
reaches a node reaches it in every later state, whichever calls run in whichever context, the
dropped ones included (`lookup_runCalls`). Preemption inside a new edge is what breaks this
(`preempted_inside_new_edge`).

A key already accepted is accepted again by every later call, in signal context too: its path is
there and its node has its kernels, so `find_entry` fetches only allocated blocks and takes no new
id (`processSnapshot_known_key`).

A call that may allocate drops its snapshot only when the ids run out: while every trie id and
kernel id it may take lies below `MAX_BLOCKS` blocks, each `get(id, true)` succeeds
(`processSnapshot_nonSignal_accepted`).
-/

namespace CaliperAggregate

namespace AggregateDB

variable {V : Type} [DoubleOps V] [Zero V] [Add V]

/-- Over any run of calls, in either context, the trie stays a tree and a key's node stays its
node. -/
theorem lookup_runCalls : ∀ (calls : List (Call V)) {db : AggregateDB V},
    TrieInv db.trie db.numTrieEntries → ∀ {K : List UInt8} {x : Nat},
      lookup db.trie K = some x → lookup (db.runCalls calls).trie K = some x
  | [], _, _, _, _, hl => hl
  | k :: ks, _, h, _, _, hl =>
    have h' := inv_processSnapshot h k.cfg k.host k.snap
    lookup_runCalls ks h'.1 (h'.2.lookup_some hl)

/-- A run of one call that walks a new key, then a signal-context call that finds a node of
it. -/
theorem lookup_runCalls_two_keys :
    TrieInv (new [] 0 0 : AggregateDB Float).trie (new [] 0 0 : AggregateDB Float).numTrieEntries ∧
    lookup ((new [] 0 0 : AggregateDB Float).processSnapshot ⟨0, [], [], 0⟩ ⟨false, fun _ => none⟩
      ⟨[⟨⟨5, 7⟩, []⟩], []⟩).trie [2, 5] = some 2 ∧
    lookup (((new [] 0 0 : AggregateDB Float).processSnapshot ⟨0, [], [], 0⟩ ⟨false, fun _ => none⟩
      ⟨[⟨⟨5, 7⟩, []⟩], []⟩).runCalls
        [⟨⟨0, [], [], 0⟩, ⟨true, fun _ => none⟩, ⟨[⟨⟨4, 7⟩, []⟩], []⟩⟩]).trie [2, 5] = some 2 :=
  have h := (Reachable.new [] 0 0 (V := Float)).trieInv
  have hl : lookup ((new [] 0 0 : AggregateDB Float).processSnapshot ⟨0, [], [], 0⟩
      ⟨false, fun _ => none⟩ ⟨[⟨⟨5, 7⟩, []⟩], []⟩).trie [2, 5] = some 2 := by decide
  ⟨h, hl, lookup_runCalls _ (trieInv_processSnapshot _ _ _ h) hl⟩

/-- A call whose key was accepted before, in either context, after a run from construction or a
`clear()` with the kernel counter below `2^32 - 1` in which no `BlockAlloc::get` read
`m_blocks[MAX_BLOCKS]`: it is accepted, counted at the key's node and at no other, and takes no
new trie id and no new kernel id. -/
theorem processSnapshot_known_key {db : AggregateDB V} (hs : db.Start) (pre : List (Call V))
    (k : Call V) (hk : (db.runCalls pre).numKernelEntries < 2 ^ 32 - 1) (hne : ¬ IsEmpty k.snap)
    (hK : 0 < keyCount (db.acceptedCalls pre) (buildKey k.cfg k.host k.snap).key) :
    (db.runCalls pre).InBounds →
    let d := db.runCalls pre
    let d' := d.processSnapshot k.cfg k.host k.snap
    d'.numDropped = d.numDropped ∧ d'.numTrieEntries = d.numTrieEntries ∧
      d'.numKernelEntries = d.numKernelEntries ∧
      ∃ e, lookup d.trie (buildKey k.cfg k.host k.snap).key = some e ∧
        d'.countOf = Function.update d.countOf e ((d.countOf e + 1) % 2 ^ 32) := by
  intro _ d d'
  have h : RunInv d (db.acceptedCalls pre) := by simpa using (runCalls_spec pre hs.runInv hk).2
  obtain ⟨e, he, -, hkid, -⟩ := h.refines.holds _ hK
  have hkid' : (d.node e).kId ≠ noKernels ∨ d.aggrAttributes.length = 0 := by
    by_cases hA : d.aggrAttributes.length = 0
    exacts [.inr hA, .inl (hkid (Nat.pos_of_ne_zero hA))]
  -- the call records its key's length, then finds the key's node with its kernels
  generalize hm : max (buildKey k.cfg k.host k.snap).key.length d.maxKeylen = m
  have h₁ : RunInv { d with maxKeylen := m } (db.acceptedCalls pre) := h.congr rfl rfl rfl rfl rfl
  have hp := h₁.prepared_noop he hkid'
  have hd' : d' = { d with maxKeylen := m }.addedAt e (d.node e).kId.toNat k.snap.immediates := by
    show d.processSnapshot k.cfg k.host k.snap = _
    unfold processSnapshot
    rw [if_neg hne]
    dsimp only
    rw [hm, findEntry_of_lookup (show lookup { d with maxKeylen := m }.trie _ = some e from he)]
    rcases allocKernels_cases { d with maxKeylen := m } e (!k.host.isSignal) with
      ⟨-, ha⟩ | ⟨hn, hA, -⟩
    · rw [ha]
      exact hp.updateKernels_eq h₁ _ _
    · exact absurd hn (hkid'.resolve_right (by simpa using hA.ne'))
  obtain ⟨-, -, hcnt⟩ := hp.accept h₁ k.snap.immediates
  rw [hd']
  exact ⟨rfl, rfl, rfl, e, he, hcnt⟩

/-- A snapshot ingested in non-signal context, then the same snapshot in signal context. -/
theorem processSnapshot_known_key_signal :
    let x : Call Float := ⟨⟨0, [], [], 0⟩, ⟨false, fun _ => none⟩, ⟨[⟨⟨5, 7⟩, []⟩], [⟨7, 0, 2.5⟩]⟩⟩
    let y : Call Float := ⟨⟨0, [], [], 0⟩, ⟨true, fun _ => none⟩, ⟨[⟨⟨5, 7⟩, []⟩], [⟨7, 0, 1.5⟩]⟩⟩
    (new [7] 0 0 : AggregateDB Float).Start ∧
      ((new [7] 0 0 : AggregateDB Float).runCalls [x]).numKernelEntries < 2 ^ 32 - 1 ∧
      ¬ IsEmpty y.snap ∧
      0 < keyCount ((new [7] 0 0 : AggregateDB Float).acceptedCalls [x])
        (buildKey y.cfg y.host y.snap).key ∧
      ((new [7] 0 0 : AggregateDB Float).runCalls [x]).InBounds ∧
      let d := (new [7] 0 0 : AggregateDB Float).runCalls [x]
      let d' := d.processSnapshot y.cfg y.host y.snap
      d'.numDropped = d.numDropped ∧ d'.numTrieEntries = d.numTrieEntries ∧
        d'.numKernelEntries = d.numKernelEntries ∧
        ∃ e, lookup d.trie (buildKey y.cfg y.host y.snap).key = some e ∧
          d'.countOf = Function.update d.countOf e ((d.countOf e + 1) % 2 ^ 32) :=
  ⟨start_new [7] 0 0, by decide, by decide, by decide, by decide,
    processSnapshot_known_key (start_new [7] 0 0) _ _ (by decide) (by decide) (by decide)
      (by decide)⟩

section Allocating

/-- `get(id, true)` gives the entry for every id below `MAX_BLOCKS` blocks. -/
theorem get_true_fst {α : Type} (m : BlockAlloc α) (init : α) {id : Nat}
    (hid : id < maxBlocks * entriesPerBlock) : (m.get init id true).1 = some id := by
  rw [BlockAlloc.get_fst, if_pos ⟨by rw [entriesPerBlock, maxBlocks] at *; omega, .inr rfl⟩]

omit [DoubleOps V] [Zero V] [Add V] in
/-- An allocating step of the walk gets its node while the next id fits: the id it fetches is
the one in the slot, at most the counter, or the new one. -/
theorem walkStep_true {db : AggregateDB V} {e : Nat} (h : TrieInv db.trie db.numTrieEntries)
    (he : db.trie.Allocated e) (b : UInt8)
    (hN : db.numTrieEntries + 1 < maxBlocks * entriesPerBlock) :
    ((db.walkStep true e b).1).isSome ∧
      (db.walkStep true e b).2.numTrieEntries ≤ db.numTrieEntries + 1 := by
  unfold walkStep
  dsimp only
  split_ifs with hb
  · have hid : ((db.addEdge e b).node e).next b = UInt32.ofNat (db.numTrieEntries + 1) := by
      rw [node, next_addEdge, if_pos ⟨rfl, rfl⟩]
    rw [hid, h.toNat_ofNat_succ, get_true_fst _ _ hN]
    exact ⟨rfl, le_rfl⟩
  · have := h.next_le e b he
    rw [get_true_fst _ _ (by rw [node]; omega)]
    exact ⟨rfl, Nat.le_succ _⟩

omit [DoubleOps V] [Zero V] [Add V] in
/-- Allocating, the walk reaches a node along the whole key while the ids it may take lie below
`MAX_BLOCKS` blocks: it takes at most one new id per byte. -/
theorem walk_true_isSome : ∀ (key : List UInt8) {db : AggregateDB V} {e : Nat},
    TrieInv db.trie db.numTrieEntries → db.trie.Allocated e → e ≤ db.numTrieEntries →
    db.numTrieEntries + key.length < maxBlocks * entriesPerBlock →
    ((walk true db (some e) key).1).isSome
  | [], _, _, _, _, _, _ => rfl
  | b :: bs, db, e, h, he, heN, hN => by
    simp only [List.length_cons] at hN
    obtain ⟨hg, hc⟩ := walkStep_spec h he heN true b
    obtain ⟨hs, hle⟩ := walkStep_true h he b (by omega)
    obtain ⟨c, hr⟩ := Option.isSome_iff_exists.mp hs
    obtain ⟨-, hcn, -, hca⟩ := child_eq_some.mp (hc c hr)
    simp only [walk, hr]
    exact walk_true_isSome bs hg.inv hca (hcn ▸ hg.inv.next_le e b (hg.grows.allocated e he))
      (by omega)

omit [Add V] in
/-- Allocating, every kernel fetch below `MAX_BLOCKS` blocks succeeds. -/
theorem getKernels_true (first : UInt32) : ∀ (is : List Nat) (ks : BlockAlloc (AggregateKernel V)),
    (∀ i ∈ is, (first + UInt32.ofNat i).toNat < maxBlocks * entriesPerBlock) →
    (getKernels first true ks is).1 = true
  | [], _, _ => rfl
  | i :: is, ks, h => by
    simp only [getKernels, get_true_fst _ _ (h i (.head _)), Option.isSome_some, if_true]
    exact getKernels_true first is _ fun j hj => h j (.tail _ hj)

omit [Add V] in
/-- Allocating, a node gets its kernels while their ids lie below `MAX_BLOCKS` blocks. -/
theorem allocKernels_true (db : AggregateDB V) (e : Nat)
    (hK : db.numKernelEntries + db.aggrAttributes.length < maxBlocks * entriesPerBlock) :
    (db.allocKernels e true).1 = some e := by
  unfold allocKernels
  dsimp only
  split_ifs with hk hok
  · rfl
  · refine absurd (getKernels_true _ _ _ fun i hi => ?_) hok
    rw [toNat_uint32_add, toNat_uint32_ofNat, toNat_uint32_ofNat]
    have := List.mem_range.mp hi
    have hlt : maxBlocks * entriesPerBlock < 2 ^ 32 := by decide
    rw [Nat.mod_eq_of_lt (by omega : db.numKernelEntries + 1 < 2 ^ 32),
      Nat.mod_eq_of_lt (by omega : i < 2 ^ 32), Nat.mod_eq_of_lt (by omega)]
    omega
  · rfl

/-- In every state a database reaches, a call in non-signal context drops its snapshot only when
the ids run out: while every trie id its key may take and every kernel id its node may take lie
below `MAX_BLOCKS` blocks of `ENTRIES_PER_BLOCK`, the snapshot is accepted. -/
theorem processSnapshot_nonSignal_accepted {db : AggregateDB V} (h : Reachable db) (cfg : Config)
    (c : Host) (snap : SnapshotRecord V) (hne : ¬ IsEmpty snap) (hsig : c.isSignal = false)
    (hT : db.numTrieEntries + (buildKey cfg c snap).key.length < maxBlocks * entriesPerBlock)
    (hK : db.numKernelEntries + db.aggrAttributes.length < maxBlocks * entriesPerBlock) :
    (db.processSnapshot cfg c snap).numDropped = db.numDropped := by
  unfold processSnapshot
  rw [if_neg hne]
  dsimp only
  generalize max (buildKey cfg c snap).key.length db.maxKeylen = m
  generalize hd₁ : { db with maxKeylen := m } = d₁
  have h₁ : TrieInv d₁.trie d₁.numTrieEntries := by rw [← hd₁]; exact h.trieInv
  -- the root, then the walk along the whole key
  have hroot : (d₁.trie.get TrieNode.init 0 true).1 = some 0 := get_true_fst _ _ (by decide)
  have h0 : ({ d₁ with trie := (d₁.trie.get TrieNode.init 0 true).2 } : AggregateDB V).trie.Allocated
      0 := (BlockAlloc.get_fst_eq_some hroot).2
  generalize hw : walk true { d₁ with trie := (d₁.trie.get TrieNode.init 0 true).2 } (some 0)
    (buildKey cfg c snap).key = w
  have hws : w.1.isSome := by
    rw [← hw]
    exact walk_true_isSome _ (h₁.get 0 true) h0 (Nat.zero_le _) (by rw [← hd₁]; exact hT)
  obtain ⟨x, hx⟩ := Option.isSome_iff_exists.mp hws
  obtain ⟨t, N, hwt⟩ := (walk_spec true _ (h₁.get 0 true) h0 (Nat.zero_le _)).1.frame
  rw [hw] at hwt
  have hfind : d₁.findEntry (buildKey cfg c snap).key (!c.isSignal) = w.2.allocKernels x true := by
    simp only [findEntry, hsig, Bool.not_false, hroot, hw, hx]
  have hA : (w.2.allocKernels x true).1 = some x :=
    allocKernels_true _ x (by rw [hwt, ← hd₁]; exact hK)
  rw [hfind, hA]
  dsimp only
  rw [updateKernels_frame]
  show (w.2.allocKernels x true).2.numDropped = db.numDropped
  rw [allocKernels_numDropped, hwt, ← hd₁]

/-- The first snapshot a new database with two aggregated attributes ingests in non-signal
context. -/
theorem processSnapshot_nonSignal_first_call :
    Reachable (new [9, 9] 0 0 : AggregateDB Float) ∧
      ¬ IsEmpty (⟨[⟨⟨1, 7⟩, []⟩], []⟩ : SnapshotRecord Float) ∧
      (⟨false, fun _ => none⟩ : Host).isSignal = false ∧
      (new [9, 9] 0 0 : AggregateDB Float).numTrieEntries +
        (buildKey ⟨0, [], [], 0⟩ ⟨false, fun _ => none⟩
          (⟨[⟨⟨1, 7⟩, []⟩], []⟩ : SnapshotRecord Float)).key.length < maxBlocks * entriesPerBlock ∧
      (new [9, 9] 0 0 : AggregateDB Float).numKernelEntries +
        (new [9, 9] 0 0 : AggregateDB Float).aggrAttributes.length <
          maxBlocks * entriesPerBlock ∧
      ((new [9, 9] 0 0 : AggregateDB Float).processSnapshot ⟨0, [], [], 0⟩
        ⟨false, fun _ => none⟩ ⟨[⟨⟨1, 7⟩, []⟩], []⟩).numDropped =
        (new [9, 9] 0 0 : AggregateDB Float).numDropped :=
  ⟨Reachable.new _ 0 0, by decide, rfl, by decide, by decide,
    processSnapshot_nonSignal_accepted (Reachable.new _ 0 0) _ _ _ (by decide) rfl (by decide)
      (by decide)⟩

end Allocating

end AggregateDB

end CaliperAggregate
