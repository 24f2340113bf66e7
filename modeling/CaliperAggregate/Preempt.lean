import CaliperAggregate.Process

/-!
# An ingest, one access at a time

A signal handler that samples runs `process_snapshot` on the thread's own database, so it can
stop the thread's own `process_snapshot` between any two of its accesses to that database and run
whole before it resumes. Here `process_snapshot` from line 492 on is a machine whose steps are
those accesses: `Pc` says where the call stands and what it holds in locals, `step` takes one
access. Each `++` is a read and a write; `find_entry`'s edge (lines 223-225) is a read of
`m_num_trie_entries`, its write and the write of `next[b]`. A fetch from an allocator is one step,
and so is each immediate entry's update of its kernel (lines 513-517), which touches only the
kernel pool.

`preempted` is the schedule of a preemption: the call takes `n` steps, a second call runs whole,
and the first takes `m` more.
-/

namespace CaliperAggregate

/-- A `process_snapshot` call once its key is built: the key's bytes, `!c->is_signal()`, and the
snapshot's immediate entries. -/
structure Ingest (V : Type) where
  key : List UInt8
  alloc : Bool
  imms : List (Immediate V)

/-- The call of `process_snapshot(c, snap)`, past its key. -/
def ingestOf {V : Type} (cfg : Config) (c : Host) (snap : SnapshotRecord V) : Ingest V :=
  ⟨(buildKey cfg c snap).key, !c.isSignal, snap.immediates⟩

/-- Where a call stands before its next access, with its locals: `e` is `entry`, `bs` the bytes of
the key still to walk, `first` is `first_id`. -/
inductive Pc (V : Type) where
  /-- line 492: `m_max_keylen = std::max(pos, m_max_keylen)` -/
  | keylen
  /-- line 218: `entry = m_trie.get(0, alloc)` -/
  | root
  /-- line 221: reads `entry->next[key[i]]`; the loop ends at the end of the key -/
  | next (e : Nat) (bs : List UInt8)
  /-- line 224, `next[b]` was 0: reads `m_num_trie_entries` -/
  | bump (e : Nat) (b : UInt8) (bs : List UInt8)
  /-- line 224: writes `n + 1` to `m_num_trie_entries` -/
  | bumpStore (e : Nat) (b : UInt8) (bs : List UInt8) (n : Nat)
  /-- line 225: `entry->next[key[i]] = id` -/
  | link (e : Nat) (b : UInt8) (bs : List UInt8) (id : UInt32)
  /-- line 228: `entry = m_trie.get(id, alloc)` -/
  | fetch (bs : List UInt8) (id : UInt32)
  /-- line 231: reads `entry->k_id` -/
  | kId (e : Nat)
  /-- line 235: reads `m_num_kernel_entries` for `first_id` -/
  | firstId (e : Nat)
  /-- line 237: reads `m_num_kernel_entries` -/
  | kernelsAdd (e : Nat) (first : UInt32)
  /-- line 237: writes `n` to `m_num_kernel_entries` -/
  | kernelsStore (e : Nat) (first : UInt32) (n : Nat)
  /-- line 240: `m_kernels.get(first_id + i, alloc)` for the `i` still to fetch -/
  | kernel (e : Nat) (first : UInt32) (is : List Nat)
  /-- line 243: `entry->k_id = first_id` -/
  | setKId (e : Nat) (first : UInt32)
  /-- line 501: reads `m_num_dropped` -/
  | dropped
  /-- line 501: writes `n + 1` to `m_num_dropped` -/
  | droppedStore (n : Nat)
  /-- line 509: reads `entry->count` -/
  | count (e : Nat)
  /-- line 509: writes `c + 1` to `entry->count` -/
  | countStore (e : Nat) (c : UInt32)
  /-- lines 511-517: attribute `a` and the ids `xs` of it and the rest, and the immediate
  entries still to add for it -/
  | values (e a : Nat) (xs : List UInt64) (is : List (Immediate V))
  /-- returned, having counted the snapshot at `o`, or dropped it -/
  | done (o : Option Nat)

namespace Pc

variable {V : Type}

/-- Between the read of `next[b] == 0` and the write of `next[b]`: the steps of a new edge. -/
def inWindow : Pc V → Bool
  | bump .. | bumpStore .. | link .. => true
  | _ => false

/-- The id the access at `pc` hands to `m_trie.get` (lines 218, 228) or `m_kernels.get` (lines 240,
514), when it calls one; `db` gives the node's `k_id` at line 514. -/
def getId (db : AggregateDB V) : Pc V → Option Nat
  | root => some 0
  | fetch _ id => some id.toNat
  | kernel _ first (i :: _) => some (first + UInt32.ofNat i).toNat
  | values e a (x :: _) (i :: _) => if i.attr = x then some ((db.node e).kId.toNat + a) else none
  | _ => none

end Pc

namespace AggregateDB

variable {V : Type} [DoubleOps V] [Add V] [Zero V]

/-- One access of the call `g` at `pc`. -/
def step (g : Ingest V) : Pc V → AggregateDB V → Pc V × AggregateDB V
  | .keylen, db => (.root, { db with maxKeylen := max g.key.length db.maxKeylen })
  | .root, db =>
    let r := db.trie.get TrieNode.init 0 g.alloc
    (r.1.elim .dropped fun e => .next e g.key, { db with trie := r.2 })
  | .next e [], db => (.kId e, db)
  | .next e (b :: bs), db =>
    (if (db.node e).next b = 0 then .bump e b bs else .fetch bs ((db.node e).next b), db)
  | .bump e b bs, db => (.bumpStore e b bs db.numTrieEntries, db)
  | .bumpStore e b bs n, db =>
    (.link e b bs (UInt32.ofNat (n + 1)), { db with numTrieEntries := n + 1 })
  | .link e b bs id, db =>
    (.fetch bs id, { db with
      trie := db.trie.set e { db.node e with next := Function.update (db.node e).next b id } })
  | .fetch bs id, db =>
    let r := db.trie.get TrieNode.init id.toNat g.alloc
    (r.1.elim .dropped fun e => .next e bs, { db with trie := r.2 })
  | .kId e, db =>
    (if (db.node e).kId = noKernels ∧ 0 < db.aggrAttributes.length then .firstId e else .count e,
      db)
  | .firstId e, db => (.kernelsAdd e (UInt32.ofNat (db.numKernelEntries + 1)), db)
  | .kernelsAdd e first, db =>
    (.kernelsStore e first (db.numKernelEntries + db.aggrAttributes.length), db)
  | .kernelsStore e first n, db =>
    (.kernel e first (List.range db.aggrAttributes.length), { db with numKernelEntries := n })
  | .kernel e first [], db => (.setKId e first, db)
  | .kernel e first (i :: is), db =>
    let r := db.kernels.get AggregateKernel.init (first + UInt32.ofNat i).toNat g.alloc
    (if r.1.isSome then .kernel e first is else .dropped, { db with kernels := r.2 })
  | .setKId e first, db =>
    (.count e, { db with trie := db.trie.set e { db.node e with kId := first } })
  | .dropped, db => (.droppedStore db.numDropped, db)
  | .droppedStore n, db => (.done none, { db with numDropped := n + 1 })
  | .count e, db => (.countStore e (db.node e).count, db)
  | .countStore e c, db =>
    (.values e 0 db.aggrAttributes g.imms,
      { db with trie := db.trie.set e { db.node e with count := c + 1 } })
  | .values e _ [] _, db => (.done (some e), db)
  | .values e a (_ :: xs) [], db => (.values e (a + 1) xs g.imms, db)
  | .values e a (x :: xs) (i :: is), db =>
    (.values e a (x :: xs) is, if i.attr = x then
      let r := db.kernels.get AggregateKernel.init ((db.node e).kId.toNat + a) g.alloc
      { db with kernels := match r.1 with
        | some k => r.2.set k ((r.2.elems k).add i.toDouble)
        | none => r.2 }
    else db)
  | .done o, db => (.done o, db)

/-- `step` on a pair. -/
def stepPair (g : Ingest V) (s : Pc V × AggregateDB V) : Pc V × AggregateDB V := step g s.1 s.2

/-- The schedule: the call `g` takes `n` steps from line 492, the call `k` runs whole, and `g` takes
`m` more steps. -/
def preempted (g : Ingest V) (k : Call V) (n m : Nat) (db : AggregateDB V) :
    Pc V × AggregateDB V :=
  (stepPair g)^[m] (((stepPair g)^[n] (.keylen, db)).1,
    ((stepPair g)^[n] (.keylen, db)).2.processSnapshot k.cfg k.host k.snap)

end AggregateDB

end CaliperAggregate
