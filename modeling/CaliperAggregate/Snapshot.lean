import CaliperAggregate.Vlenc

/-!
# Snapshots, the host and the configuration

What `process_snapshot` reads. A snapshot holds context-tree nodes and immediate entries; a node
is met through the chain `node->parent()` walks, so a snapshot node comes with its ancestors.
The host answers `is_signal()` and `make_tree_entry`, and the configuration is the service's
static data: the key attributes' ids and the attributes a flush writes.
-/

namespace CaliperAggregate

/-- A context-tree node: `id()` and `attribute()` (`attr`). -/
structure Node where
  id : UInt64
  attr : UInt64
  deriving DecidableEq, Repr

/-- A snapshot's node with the ancestors `node->parent()` reaches, nearest first. -/
structure NodeEntry where
  node : Node
  parents : List Node
  deriving DecidableEq, Repr

/-- The nodes a walk from the entry meets: the node, then its ancestors. -/
def NodeEntry.chain (e : NodeEntry) : List Node := e.node :: e.parents

/-- An immediate entry: its attribute id, the 64 bits of its value that line 469 reads as a key
value, and its value as `to_double()` converts it. -/
structure Immediate (V : Type) where
  attr : UInt64
  data : UInt64
  toDouble : V

/-- `SnapshotRecord`: the node entries and the immediate entries. -/
structure SnapshotRecord (V : Type) where
  nodeEntries : List NodeEntry
  immediates : List (Immediate V)

/-- The host as one call of `process_snapshot` sees it: `c->is_signal()` and
`c->make_tree_entry(n, nodelist, &m_aggr_root_node)`, which gives the id of the node it made, or
fails. A null entry of `nodelist` is `none`. -/
structure Host where
  isSignal : Bool
  makeTreeEntry : List (Option Node) → Option UInt64

/-- The service's static data. `invId` is `CALI_INV_ID`, which the sources use but do not
define. -/
structure Config where
  invId : UInt64
  keyAttributeIds : List UInt64
  statsAttributes : List (UInt64 × UInt64 × UInt64)
  countAttribute : UInt64

end CaliperAggregate
