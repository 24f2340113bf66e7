import CaliperAggregate.Process

/-!
# Ingesting from a signal handler

In signal context `process_snapshot_cb` asks for no new database, and every `BlockAlloc::get` on
its path is called with `alloc = false`, so neither pool gains a block
(`processSnapshot_signal_sameBlocks`). What it can still do is log: when key attributes are
configured and `make_tree_entry` fails on a non-empty key node list, `process_snapshot` writes
"aggregate: can't create node", in signal context as anywhere else, and it writes nothing else
(`keyNodes_log`, `processSnapshotCb_signal`, `processSnapshotCb_signal_logs`).

A snapshot the ingest drops is not free of effects either: `find_entry` stores each missing edge
and advances `m_num_trie_entries` before it fetches the node, and advances `m_num_kernel_entries`
before it fetches the kernels (`processSnapshot_drop_leaves_edges`).
-/

namespace CaliperAggregate

namespace AggregateDB

variable {V : Type}

/-- `db'` holds the blocks `db` holds, and both pools count as many. -/
structure SameBlocks (db db' : AggregateDB V) : Prop where
  trie_blocks : db'.trie.blocks = db.trie.blocks
  trie_numBlocks : db'.trie.numBlocks = db.trie.numBlocks
  kernels_blocks : db'.kernels.blocks = db.kernels.blocks
  kernels_numBlocks : db'.kernels.numBlocks = db.kernels.numBlocks

theorem SameBlocks.refl (db : AggregateDB V) : db.SameBlocks db := ⟨rfl, rfl, rfl, rfl⟩

theorem SameBlocks.trans {db₁ db₂ db₃ : AggregateDB V} (h₁ : db₁.SameBlocks db₂)
    (h₂ : db₂.SameBlocks db₃) : db₁.SameBlocks db₃ :=
  ⟨h₂.trie_blocks.trans h₁.trie_blocks, h₂.trie_numBlocks.trans h₁.trie_numBlocks,
    h₂.kernels_blocks.trans h₁.kernels_blocks, h₂.kernels_numBlocks.trans h₁.kernels_numBlocks⟩

theorem addEdge_sameBlocks (db : AggregateDB V) (e : Nat) (b : UInt8) :
    db.SameBlocks (db.addEdge e b) := ⟨rfl, rfl, rfl, rfl⟩

theorem bumpCount_sameBlocks (db : AggregateDB V) (e : Nat) : db.SameBlocks (db.bumpCount e) :=
  ⟨rfl, rfl, rfl, rfl⟩

/-- A trie fetch without allocation installs no block. -/
theorem trieGet_false_sameBlocks (db : AggregateDB V) (id : Nat) :
    db.SameBlocks { db with trie := (db.trie.get TrieNode.init id false).2 } :=
  ⟨BlockAlloc.get_false_blocks .., BlockAlloc.get_false_numBlocks .., rfl, rfl⟩

theorem walkStep_false_sameBlocks (db : AggregateDB V) (e : Nat) (b : UInt8) :
    db.SameBlocks (db.walkStep false e b).2 := by
  unfold walkStep
  split_ifs
  · exact (addEdge_sameBlocks db e b).trans (trieGet_false_sameBlocks _ _)
  · exact trieGet_false_sameBlocks _ _

theorem walk_false_sameBlocks :
    ∀ (db : AggregateDB V) (o : Option Nat) (key : List UInt8), db.SameBlocks (walk false db o key).2
  | db, none, _ => by simpa [walk] using SameBlocks.refl db
  | db, some _, [] => SameBlocks.refl db
  | db, some e, b :: bs =>
    (walkStep_false_sameBlocks db e b).trans (walk_false_sameBlocks _ _ bs)

variable [DoubleOps V] [Zero V]

/-- Without allocation the kernel fetches install no block. -/
theorem getKernels_false (firstId : UInt32) :
    ∀ (ks : BlockAlloc (AggregateKernel V)) (is : List Nat),
      (getKernels firstId false ks is).2.blocks = ks.blocks ∧
        (getKernels firstId false ks is).2.numBlocks = ks.numBlocks
  | ks, [] => ⟨rfl, rfl⟩
  | ks, i :: is => by
    have ih := getKernels_false firstId
      (ks.get AggregateKernel.init (firstId + UInt32.ofNat i).toNat false).2 is
    simp only [BlockAlloc.get_false_blocks, BlockAlloc.get_false_numBlocks] at ih
    simp only [getKernels]
    split_ifs
    · exact ih
    · simp

theorem allocKernels_false_sameBlocks (db : AggregateDB V) (e : Nat) :
    db.SameBlocks (db.allocKernels e false).2 := by
  unfold allocKernels
  split_ifs
  · have h := getKernels_false (V := V) (UInt32.ofNat (db.numKernelEntries + 1)) db.kernels
      (List.range db.aggrAttributes.length)
    dsimp only
    split_ifs <;> exact ⟨rfl, rfl, h.1, h.2⟩
  · exact SameBlocks.refl db

theorem findEntry_false_sameBlocks (db : AggregateDB V) (key : List UInt8) :
    db.SameBlocks (db.findEntry key false).2 := by
  have hwalk := (trieGet_false_sameBlocks db 0).trans (walk_false_sameBlocks _ (db.trie.get TrieNode.init 0 false).1 key)
  unfold findEntry
  dsimp only
  split
  · exact hwalk
  · exact hwalk.trans (allocKernels_false_sameBlocks _ _)

variable [Add V]

theorem addValues_false_sameBlocks (e a : Nat) (x : UInt64) :
    ∀ (db : AggregateDB V) (imms : List (Immediate V)), db.SameBlocks (addValues e a x false db imms)
  | db, [] => SameBlocks.refl db
  | db, i :: is => by
    unfold addValues
    split_ifs
    · refine SameBlocks.trans ?_ (addValues_false_sameBlocks e a x _ is)
      refine ⟨rfl, rfl, ?_, ?_⟩ <;> split <;> simp
    · exact addValues_false_sameBlocks e a x db is

theorem updateKernels_false_sameBlocks (e : Nat) (imms : List (Immediate V)) :
    ∀ (a : Nat) (xs : List UInt64) (db : AggregateDB V),
      db.SameBlocks (updateKernels e false imms a xs db)
  | _, [], db => SameBlocks.refl db
  | a, x :: xs, db =>
    (addValues_false_sameBlocks e a x db imms).trans (updateKernels_false_sameBlocks e imms _ xs _)

/-- A signal-context ingest allocates no block of either pool. -/
theorem processSnapshot_signal_sameBlocks {cfg : Config} {c : Host} (hsig : c.isSignal = true)
    (snap : SnapshotRecord V) (db : AggregateDB V) : db.SameBlocks (db.processSnapshot cfg c snap) := by
  unfold processSnapshot
  simp only [hsig, Bool.not_true]
  split_ifs
  · exact SameBlocks.refl db
  · have hfind := (⟨rfl, rfl, rfl, rfl⟩ : db.SameBlocks
      { db with maxKeylen := max (buildKey cfg c snap).key.length db.maxKeylen }).trans
      (findEntry_false_sameBlocks _ (buildKey cfg c snap).key)
    split
    · exact hfind.trans ⟨rfl, rfl, rfl, rfl⟩
    · exact hfind.trans ((bumpCount_sameBlocks _ _).trans (updateKernels_false_sameBlocks _ _ _ _ _))

set_option maxRecDepth 100000 in
/-- A dropped snapshot can still leave edges and counters behind: on a new database with 1024
aggregated attributes, a signal-context snapshot of node 1 walks two new edges, then advances
`m_num_kernel_entries` past kernel 1024, whose block does not exist, and is dropped. -/
theorem processSnapshot_drop_leaves_edges :
    ((new (List.replicate 1024 9) 0 0 : AggregateDB Float).processSnapshot ⟨0, [], [], 0⟩
      ⟨true, fun _ => none⟩ ⟨[⟨⟨1, 1⟩, []⟩], []⟩).numDropped = 1 ∧
    ((new (List.replicate 1024 9) 0 0 : AggregateDB Float).processSnapshot ⟨0, [], [], 0⟩
      ⟨true, fun _ => none⟩ ⟨[⟨⟨1, 1⟩, []⟩], []⟩).numTrieEntries = 2 ∧
    ((new (List.replicate 1024 9) 0 0 : AggregateDB Float).processSnapshot ⟨0, [], [], 0⟩
      ⟨true, fun _ => none⟩ ⟨[⟨⟨1, 1⟩, []⟩], []⟩).numKernelEntries = 1024 ∧
    (((new (List.replicate 1024 9) 0 0 : AggregateDB Float).processSnapshot ⟨0, [], [], 0⟩
      ⟨true, fun _ => none⟩ ⟨[⟨⟨1, 1⟩, []⟩], []⟩).node 0).next 2 = 1 ∧
    (((new (List.replicate 1024 9) 0 0 : AggregateDB Float).processSnapshot ⟨0, [], [], 0⟩
      ⟨true, fun _ => none⟩ ⟨[⟨⟨1, 1⟩, []⟩], []⟩).node 1).next 1 = 2 := by
  -- run the ingest once and read the five fields off its result
  generalize hr : (new (List.replicate 1024 9) 0 0 : AggregateDB Float).processSnapshot
    ⟨0, [], [], 0⟩ ⟨true, fun _ => none⟩ ⟨[⟨⟨1, 1⟩, []⟩], []⟩ = r
  have key : (r.numDropped, r.numTrieEntries, r.numKernelEntries, (r.node 0).next 2,
      (r.node 1).next 1) = (1, 2, 1024, 1, 2) := by
    subst hr
    decide
  simpa only [Prod.mk.injEq] using key

end AggregateDB

/-- The encoder logs "aggregate: can't create node", and nothing else, exactly when key
attributes are configured, the snapshot has nodes, the key node list is not empty and
`make_tree_entry` fails on it. -/
theorem keyNodes_log (cfg : Config) (c : Host) (entries : List NodeEntry) :
    (keyNodes cfg c entries).2 =
      if 0 < (validKeyAttributeIds cfg).length ∧ 0 < entries.length ∧
          0 < (keyNodeList (validKeyAttributeIds cfg) entries).length ∧
          c.makeTreeEntry (keyNodeList (validKeyAttributeIds cfg) entries) = none
      then ["aggregate: can\x27t create node"] else [] := by
  unfold keyNodes
  dsimp only
  by_cases h₁ : 0 < (validKeyAttributeIds cfg).length ∧ 0 < entries.length
  · by_cases h₂ : 0 < (keyNodeList (validKeyAttributeIds cfg) entries).length
    · rw [if_pos h₁, if_pos h₂]
      cases c.makeTreeEntry (keyNodeList (validKeyAttributeIds cfg) entries) <;> simp [h₁, h₂]
    · rw [if_pos h₁, if_neg h₂, if_neg fun h => h₂ h.2.2.1]
  · rw [if_neg h₁, if_neg fun h => h₁ ⟨h.1, h.2.1⟩]

section Callback

variable {V : Type} [DoubleOps V] [Add V] [Zero V]

/-- In signal context `process_snapshot_cb` constructs no database and the database it works on
keeps its blocks. It logs "aggregate: can't create node", and nothing else, exactly when the
thread has a database that is not stopped, the snapshot is not empty, key attributes are
configured, the snapshot has nodes, the key node list is not empty and `make_tree_entry` fails on
it. -/
theorem processSnapshotCb_signal (cfg : Config) (c : Host) (fresh : AggregateDB V)
    (slot : Option (AggregateDB V)) (gd : Nat) (snap : SnapshotRecord V) (hsig : c.isSignal = true) :
    (processSnapshotCb cfg c fresh slot gd snap).constructed = false ∧
    (∀ db', (processSnapshotCb cfg c fresh slot gd snap).slot = some db' →
      ∃ db, slot = some db ∧ db.SameBlocks db') ∧
    (processSnapshotCb cfg c fresh slot gd snap).log =
      if slot.map AggregateDB.stopped = some false ∧ ¬ AggregateDB.IsEmpty snap ∧
          0 < (validKeyAttributeIds cfg).length ∧ 0 < snap.nodeEntries.length ∧
          0 < (keyNodeList (validKeyAttributeIds cfg) snap.nodeEntries).length ∧
          c.makeTreeEntry (keyNodeList (validKeyAttributeIds cfg) snap.nodeEntries) = none
      then ["aggregate: can\x27t create node"] else [] := by
  cases slot with
  | none => simp [processSnapshotCb, acquire, hsig]
  | some db =>
    by_cases hs : db.stopped = true
    · simp [processSnapshotCb, acquire, hs, AggregateDB.SameBlocks.refl]
    · simp only [processSnapshotCb, acquire, hs, Bool.false_eq_true, if_false, Option.some.injEq,
        exists_eq_left', true_and, forall_eq', Option.map_some', Bool.not_eq_true]
      refine ⟨AggregateDB.processSnapshot_signal_sameBlocks hsig snap db, ?_⟩
      by_cases he : AggregateDB.IsEmpty snap
      · simp [AggregateDB.processLog, he]
      · rw [AggregateDB.processLog, if_neg he, show (buildKey cfg c snap).log =
          (keyNodes cfg c snap.nodeEntries).2 from rfl, keyNodes_log]
        simp only [he, not_false_eq_true, true_and]

theorem processSnapshotCb_signal_fresh :
    (⟨true, fun _ => some 42⟩ : Host).isSignal = true ∧
    (processSnapshotCb ⟨0, [7], [], 0⟩ ⟨true, fun _ => some 42⟩
      (AggregateDB.new [9] 0 0 : AggregateDB Float) (some (AggregateDB.new [9] 0 0)) 0
      ⟨[⟨⟨5, 7⟩, []⟩], [⟨9, 3, 3.0⟩]⟩).constructed = false ∧
    (∀ db', (processSnapshotCb ⟨0, [7], [], 0⟩ ⟨true, fun _ => some 42⟩
        (AggregateDB.new [9] 0 0 : AggregateDB Float) (some (AggregateDB.new [9] 0 0)) 0
        ⟨[⟨⟨5, 7⟩, []⟩], [⟨9, 3, 3.0⟩]⟩).slot = some db' →
      ∃ db, some (AggregateDB.new [9] 0 0) = some db ∧ db.SameBlocks db') ∧
    (processSnapshotCb ⟨0, [7], [], 0⟩ ⟨true, fun _ => some 42⟩
        (AggregateDB.new [9] 0 0 : AggregateDB Float) (some (AggregateDB.new [9] 0 0)) 0
        ⟨[⟨⟨5, 7⟩, []⟩], [⟨9, 3, 3.0⟩]⟩).log =
      if (some (AggregateDB.new [9] 0 0 : AggregateDB Float)).map AggregateDB.stopped = some false ∧
          ¬ AggregateDB.IsEmpty (⟨[⟨⟨5, 7⟩, []⟩], [⟨9, 3, 3.0⟩]⟩ : SnapshotRecord Float) ∧
          0 < (validKeyAttributeIds ⟨0, [7], [], 0⟩).length ∧
          0 < ([⟨⟨5, 7⟩, []⟩] : List NodeEntry).length ∧
          0 < (keyNodeList (validKeyAttributeIds ⟨0, [7], [], 0⟩) [⟨⟨5, 7⟩, []⟩]).length ∧
          (⟨true, fun _ => some 42⟩ : Host).makeTreeEntry
            (keyNodeList (validKeyAttributeIds ⟨0, [7], [], 0⟩) [⟨⟨5, 7⟩, []⟩]) = none
      then ["aggregate: can\x27t create node"] else [] :=
  ⟨rfl, processSnapshotCb_signal _ _ _ _ _ _ rfl⟩

/-- A signal-context call logs when `make_tree_entry` fails: a node of key attribute 7 in a
snapshot, with 7 configured, on a new database. -/
theorem processSnapshotCb_signal_logs :
    (processSnapshotCb ⟨0, [7], [], 0⟩ ⟨true, fun _ => none⟩
      (AggregateDB.new [] 0 0 : AggregateDB Float) (some (AggregateDB.new [] 0 0)) 0
      ⟨[⟨⟨5, 7⟩, []⟩], []⟩).log = ["aggregate: can\x27t create node"] :=
  rfl

end Callback

end CaliperAggregate
