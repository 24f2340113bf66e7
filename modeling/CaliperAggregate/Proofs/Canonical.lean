import CaliperAggregate.Proofs.KeyLayout
import CaliperAggregate.Proofs.KeyNodeList

/-!
# When two snapshots get the same key

The key is canonical only in part. Without key attributes the node ids are sorted, so any order
of the snapshot's nodes gives the same node part (`keyNodes_keyless_perm`). With key attributes
the node list handed to `make_tree_entry` keeps, for each attribute, the order in which the walks
meet its nodes (`keyNodeList_eq`), and the immediate part keeps, for each key attribute, the order
of its values (`immKeyAttr_eq`). So two snapshots get the same key when their nodes are a
permutation of each other and these orders agree (`buildKey_key_eq_of_perm`); a permutation that
changes one of them can change the key (`buildKey_key_perm_counterexamples`).
-/

namespace CaliperAggregate

instance isTotal_uint64_le : IsTotal UInt64 (· ≤ ·) := ⟨UInt64.le_total⟩

instance isTrans_uint64_le : IsTrans UInt64 (· ≤ ·) := ⟨fun _ _ _ => UInt64.le_trans⟩

instance isAntisymm_uint64_le : IsAntisymm UInt64 (· ≤ ·) :=
  ⟨fun _ _ h₁ h₂ => UInt64.eq_of_toBitVec_eq (BitVec.le_antisymm h₁ h₂)⟩

/-- The nodes of the chains of `entries` that carry attribute `x`, in the order the walks meet
them. -/
def attrMatches (x : UInt64) (entries : List NodeEntry) : List Node :=
  entries.flatMap fun e => e.chain.filter fun n => n.attr = x

theorem entryMatches_eq_attrMatches {kids : List UInt64} {b : Nat} {x : UInt64}
    (hx : kids[b]? = some x) (entries : List NodeEntry) :
    entryMatches kids b entries = attrMatches x entries := by
  simp only [entryMatches, chainMatches, attrMatches, hx, Option.some.injEq, eq_comm]

theorem keyNodeList_congr {kids : List UInt64} {entries entries' : List NodeEntry}
    (h : ∀ x ∈ kids, attrMatches x entries = attrMatches x entries') :
    keyNodeList kids entries = keyNodeList kids entries' := by
  rw [keyNodeList_eq, keyNodeList_eq]
  refine List.flatMap_congr fun b hb => ?_
  obtain ⟨x, hx⟩ : ∃ x, kids[b]? = some x :=
    ⟨_, List.getElem?_eq_getElem (List.mem_range.mp hb)⟩
  rw [entryMatches_eq_attrMatches hx, entryMatches_eq_attrMatches hx, h x (List.getElem?_mem hx)]

theorem keyNodes_keyless_perm {l l' : List UInt64} (h : l.Perm l') :
    l.insertionSort (· ≤ ·) = l'.insertionSort (· ≤ ·) :=
  List.eq_of_perm_of_sorted
    ((List.perm_insertionSort _ _).trans (h.trans (List.perm_insertionSort _ _).symm))
    (List.sorted_insertionSort _ _) (List.sorted_insertionSort _ _)

theorem keyNodes_congr (cfg : Config) (c : Host) {entries entries' : List NodeEntry}
    (hperm : entries.Perm entries')
    (h : ∀ x ∈ validKeyAttributeIds cfg, attrMatches x entries = attrMatches x entries') :
    keyNodes cfg c entries = keyNodes cfg c entries' := by
  unfold keyNodes
  dsimp only
  rw [hperm.length_eq, keyNodeList_congr h, keyNodes_keyless_perm (hperm.map _)]

theorem immKey_congr {V : Type} (nodeKeyLen : Nat) {imms imms' : List (Immediate V)} :
    ∀ (k : Nat) (xs : List UInt64) (s : ImmKey),
      (∀ x ∈ xs, attrValues x imms = attrValues x imms') →
      immKey nodeKeyLen imms k xs s = immKey nodeKeyLen imms' k xs s
  | _, [], _, _ => rfl
  | k, x :: xs, s, h => by
    simp only [immKey, immKeyAttr_eq, h x (List.mem_cons_self _ _)]
    exact immKey_congr nodeKeyLen (k + 1) xs _ fun y hy => h y (List.mem_cons_of_mem _ hy)

/-- Two snapshots get byte-identical keys, and so reach the same trie node, when their nodes are a
permutation of each other, every key attribute's immediate values come in the same order, and
every valid key attribute's nodes are met in the same order by the walks up their parent chains.
The host is a function of the node list, so it makes the same node for equal lists. -/
theorem buildKey_key_eq_of_perm {V : Type} (cfg : Config) (c : Host) {s s' : SnapshotRecord V}
    (hnodes : s.nodeEntries.Perm s'.nodeEntries)
    (hvals : ∀ x ∈ cfg.keyAttributeIds, attrValues x s.immediates = attrValues x s'.immediates)
    (hchains : ∀ x ∈ validKeyAttributeIds cfg,
      attrMatches x s.nodeEntries = attrMatches x s'.nodeEntries) :
    (buildKey cfg c s).key = (buildKey cfg c s').key := by
  simp only [buildKey, keyNodes_congr cfg c hnodes hchains, immKey_congr _ 0 _ _ hvals]

theorem buildKey_key_eq_of_perm_swapped :
    ([⟨⟨1, 7⟩, []⟩, ⟨⟨2, 8⟩, []⟩] : List NodeEntry).Perm [⟨⟨2, 8⟩, []⟩, ⟨⟨1, 7⟩, []⟩] ∧
    (∀ x ∈ ([7] : List UInt64), attrValues x ([⟨7, 5, ()⟩, ⟨9, 1, ()⟩] : List (Immediate Unit)) =
      attrValues x ([⟨9, 1, ()⟩, ⟨7, 5, ()⟩] : List (Immediate Unit))) ∧
    (∀ x ∈ validKeyAttributeIds ⟨0, [7], [], 0⟩,
      attrMatches x [⟨⟨1, 7⟩, []⟩, ⟨⟨2, 8⟩, []⟩] = attrMatches x [⟨⟨2, 8⟩, []⟩, ⟨⟨1, 7⟩, []⟩]) ∧
    (buildKey ⟨0, [7], [], 0⟩ ⟨false, fun l => (l.head?.join).map (·.id)⟩
      (⟨[⟨⟨1, 7⟩, []⟩, ⟨⟨2, 8⟩, []⟩], [⟨7, 5, ()⟩, ⟨9, 1, ()⟩]⟩ : SnapshotRecord Unit)).key =
    (buildKey ⟨0, [7], [], 0⟩ ⟨false, fun l => (l.head?.join).map (·.id)⟩
      (⟨[⟨⟨2, 8⟩, []⟩, ⟨⟨1, 7⟩, []⟩], [⟨9, 1, ()⟩, ⟨7, 5, ()⟩]⟩ : SnapshotRecord Unit)).key :=
  have hnodes : ([⟨⟨1, 7⟩, []⟩, ⟨⟨2, 8⟩, []⟩] : List NodeEntry).Perm [⟨⟨2, 8⟩, []⟩, ⟨⟨1, 7⟩, []⟩] :=
    List.Perm.swap _ _ _
  have hvals : ∀ x ∈ ([7] : List UInt64),
      attrValues x ([⟨7, 5, ()⟩, ⟨9, 1, ()⟩] : List (Immediate Unit)) =
        attrValues x ([⟨9, 1, ()⟩, ⟨7, 5, ()⟩] : List (Immediate Unit)) := by decide
  have hchains : ∀ x ∈ validKeyAttributeIds ⟨0, [7], [], 0⟩,
      attrMatches x [⟨⟨1, 7⟩, []⟩, ⟨⟨2, 8⟩, []⟩] = attrMatches x [⟨⟨2, 8⟩, []⟩, ⟨⟨1, 7⟩, []⟩] := by
    decide
  ⟨hnodes, hvals, hchains, buildKey_key_eq_of_perm _ _ hnodes hvals hchains⟩

/-- Permuting a snapshot changes its key when it reorders two values of one key attribute, or, with
key attributes, two nodes of one key attribute met on different chains: the host then gets the
nodes in the other order and may make another node. -/
theorem buildKey_key_perm_counterexamples :
    (buildKey ⟨0, [7], [], 0⟩ ⟨false, fun _ => none⟩
        (⟨[], [⟨7, 1, ()⟩, ⟨7, 2, ()⟩]⟩ : SnapshotRecord Unit)).key ≠
      (buildKey ⟨0, [7], [], 0⟩ ⟨false, fun _ => none⟩
        (⟨[], [⟨7, 2, ()⟩, ⟨7, 1, ()⟩]⟩ : SnapshotRecord Unit)).key ∧
    (buildKey ⟨0, [7], [], 0⟩ ⟨false, fun l => (l.head?.join).map (·.id)⟩
        (⟨[⟨⟨1, 7⟩, []⟩, ⟨⟨2, 7⟩, []⟩], []⟩ : SnapshotRecord Unit)).key ≠
      (buildKey ⟨0, [7], [], 0⟩ ⟨false, fun l => (l.head?.join).map (·.id)⟩
        (⟨[⟨⟨2, 7⟩, []⟩, ⟨⟨1, 7⟩, []⟩], []⟩ : SnapshotRecord Unit)).key := by
  decide

end CaliperAggregate
