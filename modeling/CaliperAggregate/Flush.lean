import CaliperAggregate.FindEntry

/-!
# Flushing a database

`flush` (lines 521-526) walks the trie from the root with `recursive_flush` (lines 307-338):
every node whose `count` is positive is written with `write_aggregated_snapshot`, then the
children are visited in byte order, each fetched with `m_trie.get(id, false)`. The walk's
recursion follows the trie's edges, which the source never checks for cycles, so the model
bounds it with fuel; `flush` gives it one more than the number of trie ids, enough for a trie
whose edges lead to larger ids.

`write_aggregated_snapshot` (lines 250-305) decodes the key back into nodes and immediate key
entries, then appends the node's kernels' statistics and its count.
-/

namespace CaliperAggregate

/-- `SNAP_MAX`. -/
def snapMax : Nat := 80

/-- The nodes `write_aggregated_snapshot` reads for a `toc`: `std::min(num_nodes, SNAP_MAX)`
with `num_nodes = static_cast<int>(toc)/2`, a negative `int` reading none. -/
def tocNodeCount (toc : UInt64) : Nat :=
  if toc.toNat % 2 ^ 32 < 2 ^ 31 then min (toc.toNat % 2 ^ 32 / 2) snapMax else 0

/-- Line 261-262: `n` node ids from `p` on. -/
def readNodes (buf : Nat → UInt8) : Nat → Nat → List UInt64 × Nat
  | 0, p => ([], p)
  | n + 1, p =>
    let r := readNodes buf n (vldecU64 buf p).2
    ((vldecU64 buf p).1 :: r.1, r.2)

/-- Lines 269-275 from key attribute `k` on: a value for each key attribute whose bit is set,
attached to its id. -/
def readKeyValues (buf : Nat → UInt8) (bitfield : UInt64) :
    Nat → List UInt64 → Nat → List (UInt64 × UInt64) × Nat
  | _, [], p => ([], p)
  | k, x :: xs, p =>
    if bitfield &&& keyBit k ≠ 0 then
      let r := readKeyValues buf bitfield (k + 1) xs (vldecU64 buf p).2
      ((x, (vldecU64 buf p).1) :: r.1, r.2)
    else readKeyValues buf bitfield (k + 1) xs p

/-- What decoding a key gives: the node ids, the immediate key entries, and where it stopped. -/
structure DecodedKey where
  nodes : List UInt64
  keyValues : List (UInt64 × UInt64)
  endPos : Nat

/-- Lines 256-276: the key in `buf` decoded. -/
def decodeKey (cfg : Config) (buf : Nat → UInt8) : DecodedKey :=
  let toc := vldecU64 buf 0
  let nodes := readNodes buf (tocNodeCount toc.1) toc.2
  if toc.1 % 2 = 1 then
    let bf := vldecU64 buf nodes.2
    let kv := readKeyValues buf bf.1 0 cfg.keyAttributeIds bf.2
    ⟨nodes.1, kv.1, kv.2⟩
  else ⟨nodes.1, [], nodes.2⟩

/-- An immediate entry `write_aggregated_snapshot` appends: a key value's bits, a statistic,
or the count. -/
inductive FlushValue (V : Type)
  | bits (v : UInt64)
  | dbl (v : V)
  | uint (v : UInt64)

/-- The snapshot `write_aggregated_snapshot` hands to `flush_snapshot`: the ids of its nodes and
its immediate entries. -/
structure FlushedSnapshot (V : Type) where
  nodes : List UInt64
  immediates : List (UInt64 × FlushValue V)

/-- The buffer `recursive_flush` hands down with `key`: the key, a zero (the buffer is `n+2`
bytes, zeroed), then whatever is beyond. -/
def keyBuffer (key : List UInt8) (beyond : Nat → UInt8) (i : Nat) : UInt8 :=
  if i < key.length then key.getD i 0 else if i = key.length then 0 else beyond i

namespace AggregateDB

variable {V : Type} [DoubleOps V] [Add V] [Zero V]

/-- Lines 285-296 from aggregated attribute `a` on, while `a < min(num_aggr_attr, SNAP_MAX/3)`:
the statistics of node `e`'s kernels, `k_id + a` in `uint32_t` arithmetic; a null kernel ends
the loop, an empty one is skipped. -/
def statistics (cfg : Config) (db : AggregateDB V) (e : Nat) : Nat → Nat → List (UInt64 × FlushValue V)
  | 0, _ => []
  | n + 1, a =>
    match (db.kernels.get AggregateKernel.init ((db.node e).kId + UInt32.ofNat a).toNat false).1 with
    | none => []
    | some k =>
      if (db.kernel k).count = 0 then statistics cfg db e n (a + 1)
      else
        let s := cfg.statsAttributes.getD a (0, 0, 0)
        [(s.1, .dbl (db.kernel k).min), (s.2.1, .dbl (db.kernel k).max),
          (s.2.2, .dbl (db.kernel k).sum)] ++ statistics cfg db e n (a + 1)

/-- `write_aggregated_snapshot(key, entry, c)` for node `e`, the key in `buf`. -/
def writeAggregatedSnapshot (cfg : Config) (db : AggregateDB V) (buf : Nat → UInt8) (e : Nat) :
    FlushedSnapshot V :=
  let d := decodeKey cfg buf
  ⟨d.nodes,
    d.keyValues.map (fun kv => (kv.1, .bits kv.2)) ++
      statistics cfg db e (min db.aggrAttributes.length (snapMax / 3)) 0 ++
      [(cfg.countAttribute, .uint (db.node e).count.toUInt64)]⟩

/-- `recursive_flush(n, key, entry, c)` with `fuel` levels to go: the records it writes, in
order, each as its key and its trie node. -/
def recursiveFlush (db : AggregateDB V) : Nat → List UInt8 → Option Nat → List (List UInt8 × Nat)
  | 0, _, _ => []
  | _ + 1, _, none => []
  | fuel + 1, key, some e =>
    (if 0 < (db.node e).count then [(key, e)] else []) ++
      (List.range 256).flatMap fun i =>
        if (db.node e).next (UInt8.ofNat i) = 0 then []
        else recursiveFlush db fuel (key ++ [UInt8.ofNat i])
          (db.trie.get TrieNode.init ((db.node e).next (UInt8.ofNat i)).toNat false).1

/-- `flush(c)`: the records written; the source returns their number. -/
def flush (db : AggregateDB V) : List (List UInt8 × Nat) :=
  db.recursiveFlush (db.numTrieEntries + 1) [] (db.trie.get TrieNode.init 0 false).1

/-- The snapshots `flush(c)` hands to the host, `beyond` giving the bytes past each key's
buffer. -/
def flushedSnapshots (cfg : Config) (db : AggregateDB V) (beyond : Nat → UInt8) :
    List (FlushedSnapshot V) :=
  db.flush.map fun r => db.writeAggregatedSnapshot cfg (keyBuffer r.1 beyond) r.2

end AggregateDB

end CaliperAggregate
