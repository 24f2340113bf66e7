import CaliperAggregate.FindEntry

/-!
# Ingesting a snapshot

`process_snapshot` (lines 352-519) builds the snapshot's key, records its length, finds the key's
trie node and, if there is one, counts the snapshot there and adds each aggregated attribute's
values to the node's kernels; otherwise the snapshot is dropped. `process_snapshot_cb` (lines
648-655) runs it on the calling thread's database, which `acquire` creates when the thread has
none and the call may allocate.
-/

namespace CaliperAggregate

/-- One `process_snapshot` call: the configuration, the host and the snapshot. -/
structure Call (V : Type) where
  cfg : Config
  host : Host
  snap : SnapshotRecord V

namespace AggregateDB

variable {V : Type} [DoubleOps V] [Add V] [Zero V]

/-- Lines 512-517 for aggregated attribute `a` with id `x`: each immediate entry of `x` adds its
value to kernel `k_id + a` of node `e`, when that kernel can be fetched. -/
def addValues (e a : Nat) (x : UInt64) (alloc : Bool) :
    AggregateDB V → List (Immediate V) → AggregateDB V
  | db, [] => db
  | db, i :: is =>
    if i.attr = x then
      let r := db.kernels.get AggregateKernel.init ((db.node e).kId.toNat + a) alloc
      let ks := match r.1 with
        | some k => r.2.set k ((r.2.elems k).add i.toDouble)
        | none => r.2
      addValues e a x alloc { db with kernels := ks } is
    else addValues e a x alloc db is

/-- Lines 511-518, from aggregated attribute `a` on. -/
def updateKernels (e : Nat) (alloc : Bool) (imms : List (Immediate V)) :
    Nat → List UInt64 → AggregateDB V → AggregateDB V
  | _, [], db => db
  | a, x :: xs, db => updateKernels e alloc imms (a + 1) xs (addValues e a x alloc db imms)

/-- Line 509: `++entry->count`. -/
def bumpCount (db : AggregateDB V) (e : Nat) : AggregateDB V :=
  { db with trie := db.trie.set e { db.node e with count := (db.node e).count + 1 } }

/-- Whether a snapshot has neither nodes nor immediate entries (line 355). -/
def IsEmpty (snap : SnapshotRecord V) : Prop :=
  snap.nodeEntries.length + snap.immediates.length = 0

instance (snap : SnapshotRecord V) : Decidable (IsEmpty snap) :=
  inferInstanceAs (Decidable (_ = _))

/-- `process_snapshot(c, snapshot)`. -/
def processSnapshot (cfg : Config) (c : Host) (snap : SnapshotRecord V) (db : AggregateDB V) :
    AggregateDB V :=
  if IsEmpty snap then db
  else
    let kb := buildKey cfg c snap
    let db := { db with maxKeylen := max kb.key.length db.maxKeylen }
    let r := db.findEntry kb.key (!c.isSignal)
    match r.1 with
    | none => { r.2 with numDropped := r.2.numDropped + 1 }
    | some e =>
      (r.2.bumpCount e).updateKernels e (!c.isSignal) snap.immediates 0 r.2.aggrAttributes

/-- What `process_snapshot` logs. -/
def processLog (cfg : Config) (c : Host) (snap : SnapshotRecord V) : List String :=
  if IsEmpty snap then [] else (buildKey cfg c snap).log

end AggregateDB

/-- `acquire(c, alloc)` on a thread whose slot holds `slot`: the database, and whether a new one
was constructed (it is `fresh`). The list splice is the registry's. -/
def acquire {V : Type} (slot : Option (AggregateDB V)) (alloc : Bool) (fresh : AggregateDB V) :
    Option (AggregateDB V) × Bool :=
  match slot with
  | some db => (some db, false)
  | none => if alloc then (some fresh, true) else (none, false)

/-- What one call of `process_snapshot_cb` leaves: the thread's database, whether one was
constructed, what was logged, and `s_global_num_dropped`. -/
structure CbOutcome (V : Type) where
  slot : Option (AggregateDB V)
  constructed : Bool
  log : List String
  globalDropped : Nat

section Callback

variable {V : Type} [DoubleOps V] [Add V] [Zero V]

/-- `process_snapshot_cb` (lines 648-655) on a thread whose slot holds `slot`; `fresh` is what
`new AggregateDB(c)` would build. -/
def processSnapshotCb (cfg : Config) (c : Host) (fresh : AggregateDB V)
    (slot : Option (AggregateDB V)) (globalDropped : Nat) (snap : SnapshotRecord V) :
    CbOutcome V :=
  let acq := acquire slot (!c.isSignal) fresh
  match acq.1 with
  | some db =>
    if db.stopped then ⟨some db, acq.2, [], globalDropped + 1⟩
    else ⟨some (db.processSnapshot cfg c snap), acq.2, AggregateDB.processLog cfg c snap,
      globalDropped⟩
  | none => ⟨none, acq.2, [], globalDropped + 1⟩

end Callback

end CaliperAggregate
