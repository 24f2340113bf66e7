import CaliperAggregate.Process
import CaliperAggregate.Flush
import CaliperAggregate.KeyAttributes

/-!
# The service

The aggregation service between its callbacks: the database each thread's slot under
`s_aggregate_db_key` holds, the databases on `s_list`, `s_global_num_dropped`, and the key
attributes. A database is named by an id, each new one by the next; `s_list` is the list of ids
from its head. Each callback is one step here: how `process_snapshot_cb` and `flush_cb`
interleave inside is modelled by `StopFlag` and `Registry`.

`process_snapshot_cb` (lines 648-655) runs on the calling thread's database, which `acquire`
(lines 566-586) builds and splices in at the head of `s_list` when the thread has none and the call
may allocate. `post_init_cb` (lines 657-670) acquires the master thread's database and looks the
key attributes up, and `create_attribute_cb` (lines 672-683) updates them. `flush_cb` (lines
597-646) flushes and clears every database on the list, adding its `m_num_dropped` to
`s_global_num_dropped`, and unlinks the retired ones. When a thread exits, its slot's destructor
`retire` (lines 588-595) runs on the database the slot held. What the service hands to Caliper
is the snapshots `flush_cb` writes (`output`). `flush_cb` also folds each database's counters into
the global statistics that `finish_cb` logs (`Statistics`).
-/

namespace CaliperAggregate

/-- `s_global_num_trie_entries`, `s_global_num_kernel_entries`, `s_global_num_trie_blocks`,
`s_global_num_kernel_blocks` and `s_global_max_keylen` (lines 198-201 and 203). -/
structure Statistics where
  numTrieEntries : Nat
  numKernelEntries : Nat
  numTrieBlocks : Nat
  numKernelBlocks : Nat
  maxKeylen : Nat
  deriving DecidableEq, Repr

/-- Lines 614-617 and 619: database `db`'s counters folded into the statistics. -/
def Statistics.fold {V : Type} (st : Statistics) (db : AggregateDB V) : Statistics :=
  ⟨st.numTrieEntries + db.numTrieEntries, st.numKernelEntries + db.numKernelEntries,
    st.numTrieBlocks + db.trie.numBlocks, st.numKernelBlocks + db.kernels.numBlocks,
    max st.maxKeylen db.maxKeylen⟩

/-- `sizeof(TrieNode)`: 258 `uint32_t`, without padding. -/
def trieNodeSize : Nat := 1032

/-- `sizeof(AggregateKernel)`: three `double`s and an `int`, padded to the alignment of
`double`. -/
def aggregateKernelSize : Nat := 32

/-- What `finish_cb` (lines 686-693) logs at level 2. -/
def Statistics.text (st : Statistics) : String :=
  "aggregate: max key len " ++ toString st.maxKeylen ++ ", " ++
    toString st.numKernelEntries ++ " entries, " ++ toString st.numTrieEntries ++ " nodes, " ++
    toString (st.numTrieBlocks + st.numKernelBlocks) ++ " blocks (" ++
    toString (st.numTrieBlocks * trieNodeSize * 1024 +
      st.numKernelBlocks * aggregateKernelSize * 1024) ++ " bytes reserved)"

/-- The service's state between callbacks. -/
structure Service (V : Type) where
  /-- the id of the database each thread's slot holds -/
  slot : Nat → Option Nat
  /-- the database with each id -/
  db : Nat → AggregateDB V
  /-- `s_list`, from its head -/
  list : List Nat
  /-- the id the next database takes -/
  fresh : Nat
  /-- `s_global_num_dropped` -/
  globalDropped : Nat
  /-- the other global statistics -/
  stats : Statistics
  /-- `s_key_attribute_names` and `s_key_attribute_ids` -/
  keys : KeyAttributes

/-- A callback, with what it gets from Caliper. A database built during the callback would have
the aggregated attributes `aggr`, and its allocators' `m_num_blocks` would start as `trieBlocks`
and `kernelBlocks`. -/
inductive ServiceEvent (V : Type) where
  /-- `process_snapshot_cb` on thread `t` -/
  | processSnapshot (t : Nat) (c : Host) (snap : SnapshotRecord V) (aggr : List UInt64)
      (trieBlocks kernelBlocks : Nat)
  /-- `post_init_cb` on the master thread `t`, `get_attribute` as `lookup` -/
  | postInit (t : Nat) (lookup : String → Option UInt64) (aggr : List UInt64)
      (trieBlocks kernelBlocks : Nat)
  /-- `create_attribute_cb` for an attribute with a name and an id -/
  | createAttribute (name : String) (id : UInt64)
  /-- `flush_cb`, `beyond` giving the bytes past each key's buffer -/
  | flush (beyond : Nat → UInt8)
  /-- thread `t` exits -/
  | threadExit (t : Nat)

namespace Service

variable {V : Type} [DoubleOps V] [Add V] [Zero V]

/-- After `init_static_data`: no database, no thread with one, and the key attributes of the
names `names` without ids. -/
def init (invId : UInt64) (names : List String) : Service V :=
  ⟨fun _ => none, fun _ => AggregateDB.new [] 0 0, [], 0, 0, ⟨0, 0, 0, 0, 0⟩,
    KeyAttributes.init invId names⟩

/-- The static data `process_snapshot` reads: `base`, whose key attribute ids are the current
ones. -/
def config (s : Service V) (base : Config) : Config :=
  { base with keyAttributeIds := s.keys.ids }

/-- Lines 574-582: thread `t`'s slot takes the new database `db`, spliced in at the head of
`s_list`. -/
def adopt (s : Service V) (t : Nat) (db : AggregateDB V) : Service V :=
  { s with
    slot := Function.update s.slot t (some s.fresh)
    db := Function.update s.db s.fresh db
    list := s.fresh :: s.list
    fresh := s.fresh + 1 }

/-- Thread `t`'s database after a callback left it as `o`, built during the callback if
`constructed`. -/
def store (s : Service V) (t : Nat) (constructed : Bool) : Option (AggregateDB V) → Service V
  | none => s
  | some db =>
    if constructed then s.adopt t db
    else match s.slot t with
      | some d => { s with db := Function.update s.db d db }
      | none => s

/-- `process_snapshot_cb` on thread `t`, `fresh` being what `new AggregateDB(c)` builds. -/
def processSnapshotCb (base : Config) (s : Service V) (t : Nat) (c : Host) (snap : SnapshotRecord V)
    (fresh : AggregateDB V) : Service V :=
  let o := CaliperAggregate.processSnapshotCb (s.config base) c fresh ((s.slot t).map s.db)
    s.globalDropped snap
  { s.store t o.constructed o.slot with globalDropped := o.globalDropped }

/-- `post_init_cb` on the master thread `t`: `acquire(c, true)`, then lines 662-669. -/
def postInitCb (s : Service V) (t : Nat) (lookup : String → Option UInt64)
    (fresh : AggregateDB V) : Service V :=
  let a := acquire ((s.slot t).map s.db) true fresh
  { s.store t a.2 a.1 with keys := s.keys.postInit lookup }

/-- `create_attribute_cb`. -/
def createAttributeCb (s : Service V) (name : String) (id : UInt64) : Service V :=
  { s with keys := s.keys.createAttribute name id }

/-- Lines 611-623 on database `d`: `m_stopped` set, the snapshots `flush(c)` writes, the
database's counters folded into the statistics and its `m_num_dropped` added to
`s_global_num_dropped`, `clear()`, and `m_stopped` cleared. -/
def flushOne (base : Config) (beyond : Nat → UInt8) (s : Service V) (d : Nat) :
    Service V × List (FlushedSnapshot V) :=
  let db := { s.db d with stopped := true }
  ({ s with
      db := Function.update s.db d { db.clear with stopped := false }
      globalDropped := s.globalDropped + db.numDropped
      stats := s.stats.fold db },
    db.flushedSnapshots (s.config base) beyond)

/-- Lines 625-640 after database `d`'s turn: a retired database is unlinked and deleted. -/
def reclaim (s : Service V) (d : Nat) : Service V :=
  if (s.db d).retired then { s with list := s.list.erase d } else s

/-- One turn of the loop of lines 610-642, on database `d`, after the snapshots `r.2`. -/
def flushTurn (base : Config) (beyond : Nat → UInt8) (r : Service V × List (FlushedSnapshot V))
    (d : Nat) : Service V × List (FlushedSnapshot V) :=
  let f := flushOne base beyond r.1 d
  (f.1.reclaim d, r.2 ++ f.2)

/-- `flush_cb`: each database on `s_list` in turn, from its head; the snapshots written, in
order. -/
def flushCb (base : Config) (beyond : Nat → UInt8) (s : Service V) :
    Service V × List (FlushedSnapshot V) :=
  s.list.foldl (flushTurn base beyond) (s, [])

/-- Thread `t` exits: the destructor of its slot, `retire`, runs on the database the slot held,
and the slot holds none. -/
def threadExit (s : Service V) (t : Nat) : Service V :=
  match s.slot t with
  | some d =>
    { s with
      slot := Function.update s.slot t none
      db := Function.update s.db d { s.db d with retired := true } }
  | none => s

/-- The callback's effect, `base` giving the static data. -/
def step (base : Config) (s : Service V) : ServiceEvent V → Service V
  | .processSnapshot t c snap aggr trieBlocks kernelBlocks =>
    s.processSnapshotCb base t c snap (AggregateDB.new aggr trieBlocks kernelBlocks)
  | .postInit t lookup aggr trieBlocks kernelBlocks =>
    s.postInitCb t lookup (AggregateDB.new aggr trieBlocks kernelBlocks)
  | .createAttribute name id => s.createAttributeCb name id
  | .flush beyond => (s.flushCb base beyond).1
  | .threadExit t => s.threadExit t

/-- The service after the callbacks `evs`, in order. -/
def run (base : Config) (s : Service V) (evs : List (ServiceEvent V)) : Service V :=
  evs.foldl (step base) s

/-- Line 702: the number of dropped snapshots `finish_cb` reports. -/
def droppedText (n : Nat) : String :=
  "aggregate: dropped " ++ toString n ++ " snapshots."

/-- What `finish_cb` (lines 685-703) logs at level 1: a warning for each key attribute never
encountered, then `s_global_num_dropped` if any snapshot was dropped. -/
def finishCb (invId : UInt64) (s : Service V) : List String :=
  KeyAttributes.finishWarnings invId s.keys ++
    if 0 < s.globalDropped then [droppedText s.globalDropped] else []

/-- The snapshots the callback hands to Caliper's `flush_snapshot`: those `flush_cb` writes. -/
def written (base : Config) (s : Service V) : ServiceEvent V → List (FlushedSnapshot V)
  | .flush beyond => (s.flushCb base beyond).2
  | .processSnapshot .. | .postInit .. | .createAttribute .. | .threadExit _ => []

/-- The snapshots the callbacks `evs` hand to Caliper, in order. -/
def output (base : Config) : Service V → List (ServiceEvent V) → List (FlushedSnapshot V)
  | _, [] => []
  | s, e :: evs => s.written base e ++ output base (s.step base e) evs

end Service

end CaliperAggregate
