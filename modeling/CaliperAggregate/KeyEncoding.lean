import CaliperAggregate.Snapshot
import Mathlib.Data.List.Sort

/-!
# The key encoder

`process_snapshot` turns a snapshot into a byte key (lines 364-492). With key attributes
configured and nodes in the snapshot, it walks every node's parent chain twice: once to count the
nodes of each key attribute and to remember where each chain first meets one, once to place
them, attribute after attribute and each attribute's nodes from the back. The host makes one node
for that list, and its id is the key's node part. Otherwise the node part is the snapshot's node
ids, sorted.

Then come the configured key attributes' immediate values, each kept only if the key still has
room for it. The key is the varint `toc`, the node ids' varints and, when a value was kept, the
bitfield's varint and the values' varints.
-/

namespace CaliperAggregate

/-- `MAX_KEYLEN`. -/
def maxKeylen : Nat := 128

/-- Lines 369-374: the configured key attributes that have an id. -/
def validKeyAttributeIds (cfg : Config) : List UInt64 :=
  cfg.keyAttributeIds.filter (· ≠ cfg.invId)

section NodePart

variable (kids : List UInt64)

/-- The innermost loop of the first walk (lines 387-395), from key attribute `a` on: the node
counts for every key attribute it carries, and `here`, the chain from the node on, becomes the
chain's start if it has none. -/
def countNode (here : List Node) (node : Node) :
    Nat → List UInt64 → (Nat → Nat) → Option (List Node) → (Nat → Nat) × Option (List Node)
  | _, [], counts, start => (counts, start)
  | a, x :: xs, counts, start =>
    if x = node.attr then
      countNode here node (a + 1) xs (Function.update counts a (counts a + 1))
        (some (start.getD here))
    else countNode here node (a + 1) xs counts start

/-- The first walk along one chain (line 386). -/
def countChain :
    List Node → (Nat → Nat) → Option (List Node) → (Nat → Nat) × Option (List Node)
  | [], counts, start => (counts, start)
  | n :: ns, counts, start =>
    let r := countNode (n :: ns) n 0 kids counts start
    countChain ns r.1 r.2

/-- The first walk (lines 385-395): `key_entries` and `start_nodes`. -/
def firstWalk : List NodeEntry → (Nat → Nat) → (Nat → Nat) × List (Option (List Node))
  | [], counts => (counts, [])
  | e :: es, counts =>
    let r := countChain kids e.chain counts none
    let rest := firstWalk es r.1
    (rest.1, r.2 :: rest.2)

/-- Lines 399-400, for each `a` of `as` in turn: `key_entries[a] += key_entries[a-1]`. -/
def prefixSums : (Nat → Nat) → List Nat → Nat → Nat
  | ks, [] => ks
  | ks, a :: as => prefixSums (Function.update ks a (ks a + ks (a - 1))) as

/-- The innermost loop of the second walk (lines 415-417), from key attribute `a` on:
`nodelist[key_entries[a] - (++filled[a])] = node` for every key attribute the node carries. -/
def placeNode (ps : Nat → Nat) (node : Node) :
    Nat → List UInt64 → (Nat → Option Node) × (Nat → Nat) → (Nat → Option Node) × (Nat → Nat)
  | _, [], acc => acc
  | a, x :: xs, acc =>
    if x = node.attr then
      placeNode ps node (a + 1) xs
        (Function.update acc.1 (ps a - (acc.2 a + 1)) (some node),
          Function.update acc.2 a (acc.2 a + 1))
    else placeNode ps node (a + 1) xs acc

/-- The second walk along a chain from its start (line 414). -/
def placeChain (ps : Nat → Nat) :
    List Node → (Nat → Option Node) × (Nat → Nat) → (Nat → Option Node) × (Nat → Nat)
  | [], acc => acc
  | n :: ns, acc => placeChain ps ns (placeNode ps n 0 kids acc)

/-- The second walk (lines 413-417), each chain from its start; a chain without one is skipped. -/
def secondWalk (ps : Nat → Nat) :
    List (Option (List Node)) → (Nat → Option Node) × (Nat → Nat) →
      (Nat → Option Node) × (Nat → Nat)
  | [], acc => acc
  | none :: ss, acc => secondWalk ps ss acc
  | some c :: ss, acc => secondWalk ps ss (placeChain kids ps c acc)

end NodePart

/-- Lines 385-418: `nodelist[0, tot_entries)`, each key attribute's nodes in turn, for the key
attributes `kids`. -/
def keyNodeList (kids : List UInt64) (entries : List NodeEntry) : List (Option Node) :=
  let walk := firstWalk kids entries (fun _ => 0)
  let ps := prefixSums walk.1 (List.range' 1 (kids.length - 1))
  (List.range (ps (kids.length - 1))).map (secondWalk kids ps walk.2 (fun _ => none, fun _ => 0)).1

/-- Lines 364-437: the key's node ids, `nodeid_vec[0, n_nodes)`, and what is logged. The node
list's length is `tot_entries`. -/
def keyNodes (cfg : Config) (c : Host) (entries : List NodeEntry) : List UInt64 × List String :=
  let kids := validKeyAttributeIds cfg
  if 0 < kids.length ∧ 0 < entries.length then
    let nodelist := keyNodeList kids entries
    if 0 < nodelist.length then
      match c.makeTreeEntry nodelist with
      | some id => ([id], [])
      | none => ([], ["aggregate: can\x27t create node"])
    else ([], [])
  else ((entries.map (·.node.id)).insertionSort (· ≤ ·), [])

/-- Lines 451-455: the node ids' varints, while the key has room for one more
(`node_key_len+10 < MAX_KEYLEN`). -/
def encodeNodeKey : List UInt64 → List UInt8 → List UInt8
  | [], acc => acc
  | id :: ids, acc =>
    if acc.length + 10 < maxKeylen then encodeNodeKey ids (acc ++ vlencU64 id) else acc

/-- `1 << k`, an `int`, as the `uint64_t` the bitfield combines it with. The shift count is
taken modulo 32 as x86 does (the source's shift is undefined from 32 on), and bit 31 is the
sign bit, which the conversion extends. -/
def keyBit (k : Nat) : UInt64 :=
  if k % 32 = 31 then 0xFFFFFFFF80000000 else UInt64.ofNat (2 ^ (k % 32))

/-- The immediate part under construction: `imm_key[0, imm_key_len)`, `imm_key_bitfield`, one
past the highest index of `imm_key` written so far, and the entries kept with the index of
their key attribute. -/
structure ImmKey where
  bytes : List UInt8
  bitfield : UInt64
  written : Nat
  taken : List (Nat × UInt64)

/-- The empty immediate part. -/
def ImmKey.empty : ImmKey := ⟨[], 0, 0, []⟩

section ImmPart

variable {V : Type}

/-- The inner loop of lines 464-476 for key attribute `k` with id `x`: an entry of `x` is
encoded into `imm_key` first, then kept if the key has room for it and the bitfield, and
otherwise the loop ends. -/
def immKeyAttr (nodeKeyLen k : Nat) (x : UInt64) : List (Immediate V) → ImmKey → ImmKey
  | [], s => s
  | e :: es, s =>
    if x = e.attr then
      let p := (vlencU64 e.data).length
      let s' := { s with written := max s.written (s.bytes.length + p) }
      if maxKeylen ≤ nodeKeyLen + s.bytes.length + p + (vlencU64 (s.bitfield ||| keyBit k)).length + 1
      then s'
      else immKeyAttr nodeKeyLen k x es
        { s' with bytes := s.bytes ++ vlencU64 e.data, bitfield := s.bitfield ||| keyBit k,
                  taken := s.taken ++ [(k, e.data)] }
    else immKeyAttr nodeKeyLen k x es s

/-- Lines 463-477, from key attribute `k` on. -/
def immKey (nodeKeyLen : Nat) (imms : List (Immediate V)) : Nat → List UInt64 → ImmKey → ImmKey
  | _, [], s => s
  | k, x :: xs, s => immKey nodeKeyLen imms (k + 1) xs (immKeyAttr nodeKeyLen k x imms s)

end ImmPart

/-- Lines 479-490: `key[0, pos)`. -/
def assembleKey (nNodes : Nat) (nodeKey : List UInt8) (imm : ImmKey) : List UInt8 :=
  vlencU64 (UInt64.ofNat (nNodes * 2 + if imm.bitfield ≠ 0 then 1 else 0)) ++ nodeKey ++
    if imm.bitfield ≠ 0 then vlencU64 imm.bitfield ++ imm.bytes else []

/-- What the encoder builds: the node ids, `node_key`, the immediate part, the key, and what was
logged on the way. -/
structure KeyBuild where
  nodeIds : List UInt64
  nodeKey : List UInt8
  imm : ImmKey
  key : List UInt8
  log : List String

/-- Lines 364-490: the key of a snapshot. -/
def buildKey {V : Type} (cfg : Config) (c : Host) (snap : SnapshotRecord V) : KeyBuild :=
  let nodes := keyNodes cfg c snap.nodeEntries
  let nodeKey := encodeNodeKey nodes.1 []
  let imm := immKey nodeKey.length snap.immediates 0 cfg.keyAttributeIds ImmKey.empty
  ⟨nodes.1, nodeKey, imm, assembleKey nodes.1.length nodeKey imm, nodes.2⟩

end CaliperAggregate
