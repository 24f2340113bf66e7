import CaliperAggregate.BlockAlloc
import CaliperAggregate.KeyEncoding

/-!
# The per-thread database

An `AggregateDB` owns a trie of `TrieNode`s and a pool of `AggregateKernel`s, both in block
allocators, and a few counters. Trie ids, `k_id` and `count` are `uint32_t` in the source and
`UInt32` here; the `size_t` counters are `Nat`. A kernel's values are doubles: the model keeps
them abstract, with the comparison and the two limits the kernel uses (`DoubleOps`).
-/

namespace CaliperAggregate

/-- What the kernels use of `double`: the comparison `std::min` and `std::max` make, and the two
limits `AggregateKernel()` starts from, `numeric_limits<double>::max()` and `::min()`. -/
class DoubleOps (V : Type) where
  lt : V → V → Bool
  limitsMax : V
  limitsMin : V

/-- `double` itself, with the limits of `std::numeric_limits<double>`. -/
instance : DoubleOps Float := ⟨fun a b => a < b, 1.7976931348623157e308, 2.2250738585072014e-308⟩

/-- `AggregateKernel`; `count` is an `int`. -/
structure AggregateKernel (V : Type) where
  min : V
  max : V
  sum : V
  count : BitVec 32

/-- `TrieNode`: the children's ids by byte (0 for none), `k_id` and `count`. -/
structure TrieNode where
  next : UInt8 → UInt32
  kId : UInt32
  count : UInt32

/-- `TrieNode`'s initialisers: no child, `k_id = 0xFFFFFFFF`, `count = 0`. -/
def TrieNode.init : TrieNode := ⟨fun _ => 0, 0xFFFFFFFF, 0⟩

/-- The `k_id` of a node without kernels. -/
def noKernels : UInt32 := 0xFFFFFFFF

section Kernel

variable {V : Type} [DoubleOps V] [Add V] [Zero V]

/-- `AggregateKernel()`. -/
def AggregateKernel.init : AggregateKernel V :=
  ⟨DoubleOps.limitsMax, DoubleOps.limitsMin, 0, 0⟩

/-- `AggregateKernel::add(val)`: `std::min(min, val)` is `val < min ? val : min`, and
`std::max(max, val)` is `max < val ? val : max`. -/
def AggregateKernel.add (k : AggregateKernel V) (val : V) : AggregateKernel V :=
  ⟨if DoubleOps.lt val k.min then val else k.min, if DoubleOps.lt k.max val then val else k.max,
    k.sum + val, k.count + 1⟩

end Kernel

/-- `AggregateDB`'s state: `m_stopped`, `m_retired`, the ids of `m_aggr_attributes`, the trie,
the kernel pool and the four counters. -/
structure AggregateDB (V : Type) where
  stopped : Bool
  retired : Bool
  aggrAttributes : List UInt64
  trie : BlockAlloc TrieNode
  kernels : BlockAlloc (AggregateKernel V)
  numTrieEntries : Nat
  numKernelEntries : Nat
  numDropped : Nat
  maxKeylen : Nat

namespace AggregateDB

/-- No `get` of either allocator has read `m_blocks[MAX_BLOCKS]`, so the model has followed the
code. -/
def InBounds {V : Type} (db : AggregateDB V) : Prop :=
  db.trie.overrun = false ∧ db.kernels.overrun = false

instance {V : Type} (db : AggregateDB V) : Decidable db.InBounds :=
  inferInstanceAs (Decidable (_ ∧ _))

variable {V : Type} [DoubleOps V] [Add V] [Zero V]

/-- `AggregateDB(c)` (lines 532-561). `aggr` holds the ids `get_attribute` gave for the
aggregation attributes (`CALI_INV_ID` for a name it did not know); `trieBlocks` and
`kernelBlocks` are what the allocators' uninitialised `m_num_blocks` hold. The first block of each
allocator is allocated. -/
def new (aggr : List UInt64) (trieBlocks kernelBlocks : Nat) : AggregateDB V where
  stopped := false
  retired := false
  aggrAttributes := aggr
  trie := ((BlockAlloc.new TrieNode.init trieBlocks).get TrieNode.init 0 true).2
  kernels := ((BlockAlloc.new AggregateKernel.init kernelBlocks).get AggregateKernel.init 0 true).2
  numTrieEntries := 0
  numKernelEntries := 0
  numDropped := 0
  maxKeylen := 0

/-- `AggregateDB::clear()` (lines 342-350). -/
def clear (db : AggregateDB V) : AggregateDB V :=
  { db with trie := db.trie.clear, kernels := db.kernels.clear, numTrieEntries := 0,
            numKernelEntries := 0, numDropped := 0, maxKeylen := 0 }

/-- The trie node with id `e`. -/
def node (db : AggregateDB V) (e : Nat) : TrieNode := db.trie.elems e

/-- The kernel with id `k`. -/
def kernel (db : AggregateDB V) (k : Nat) : AggregateKernel V := db.kernels.elems k

end AggregateDB

end CaliperAggregate
