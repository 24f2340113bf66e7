import CaliperAggregate.Database

/-!
# Finding a key's trie node

`find_entry` (lines 217-248) walks the trie from the root along the key's bytes. A missing
child gets the next id, `++m_num_trie_entries`, whether or not it may allocate; each node is then
fetched with `m_trie.get(id, alloc)`, and the walk stops at a null one. At the end, a node
without kernels gets the next `|m_aggr_attributes|` kernel ids, if every one of them can be
fetched; the counter advances before they are.
-/

namespace CaliperAggregate

namespace AggregateDB

variable {V : Type} [DoubleOps V] [Add V] [Zero V]

/-- Lines 224-225: `id = ++m_num_trie_entries; entry->next[b] = id`, for node `e`. -/
def addEdge (db : AggregateDB V) (e : Nat) (b : UInt8) : AggregateDB V :=
  { db with
    numTrieEntries := db.numTrieEntries + 1
    trie := db.trie.set e
      { db.node e with next := Function.update (db.node e).next b
                                (UInt32.ofNat (db.numTrieEntries + 1)) } }

/-- One step of the walk (lines 221-228) from node `e` along byte `b`. -/
def walkStep (db : AggregateDB V) (alloc : Bool) (e : Nat) (b : UInt8) :
    Option Nat × AggregateDB V :=
  let db := if (db.node e).next b = 0 then db.addEdge e b else db
  let r := db.trie.get TrieNode.init ((db.node e).next b).toNat alloc
  (r.1, { db with trie := r.2 })

/-- The loop of lines 220-229: `for (i = 0; entry && i < n; ++i)`. -/
def walk (alloc : Bool) : AggregateDB V → Option Nat → List UInt8 → Option Nat × AggregateDB V
  | db, none, _ => (none, db)
  | db, some e, [] => (some e, db)
  | db, some e, b :: bs => walk alloc (db.walkStep alloc e b).2 (db.walkStep alloc e b).1 bs

/-- Lines 239-241: `m_kernels.get(first_id + i, alloc)` for each `i` of `is` in turn, in
`uint32_t` arithmetic, until one is null; whether none was. -/
def getKernels (firstId : UInt32) (alloc : Bool) :
    BlockAlloc (AggregateKernel V) → List Nat → Bool × BlockAlloc (AggregateKernel V)
  | ks, [] => (true, ks)
  | ks, i :: is =>
    let r := ks.get AggregateKernel.init (firstId + UInt32.ofNat i).toNat alloc
    if r.1.isSome then getKernels firstId alloc r.2 is else (false, r.2)

/-- Lines 231-245 at node `e`: a node without kernels gets the next `|m_aggr_attributes|` ids
when they can all be fetched; `none` is the `return 0` of line 241. -/
def allocKernels (db : AggregateDB V) (e : Nat) (alloc : Bool) : Option Nat × AggregateDB V :=
  if (db.node e).kId = noKernels ∧ 0 < db.aggrAttributes.length then
    let firstId := UInt32.ofNat (db.numKernelEntries + 1)
    let r := getKernels firstId alloc db.kernels (List.range db.aggrAttributes.length)
    let db := { db with numKernelEntries := db.numKernelEntries + db.aggrAttributes.length,
                        kernels := r.2 }
    if r.1 then (some e, { db with trie := db.trie.set e { db.node e with kId := firstId } })
    else (none, db)
  else (some e, db)

/-- `find_entry(n, key, alloc)`: the node reached, `none` for a null result. -/
def findEntry (db : AggregateDB V) (key : List UInt8) (alloc : Bool) : Option Nat × AggregateDB V :=
  let root := db.trie.get TrieNode.init 0 alloc
  let r := walk alloc { db with trie := root.2 } root.1 key
  match r.1 with
  | none => (none, r.2)
  | some e => r.2.allocKernels e alloc

end AggregateDB

end CaliperAggregate
