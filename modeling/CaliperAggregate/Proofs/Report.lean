import CaliperAggregate.Proofs.Refinement
import CaliperAggregate.Proofs.FlushRecords

/-!
# What a flush reports after a run

The service's purpose, end to end: after a run of `process_snapshot` calls from construction or a
`clear()`, `flush` writes one snapshot per byte key accepted a number of times that is not a
multiple of `2^32`, in lexicographic order of the keys, and each snapshot is the key decoded, the
statistics of the key's kernels folded over the accepted values, and the count of its accepted
snapshots (`flushedSnapshots_runCalls`). `keyReport` says what that snapshot is from the accepted
calls alone, with no trie and no kernel pool.

A record of `flush` is a node with a count on the path of its key (`mem_flush`), and what a run
keeps (`RunInv`) says that count is the key's, modulo `2^32`. The statistics loop of
`write_aggregated_snapshot` fetches `k_id + a` in `uint32_t` arithmetic; while the kernel counter
is below `2^32 - 1` that is the plain sum, an allocated kernel, folded over the key's values
(`RunInv.statistics_eq`).
-/

namespace CaliperAggregate

section Spec

variable {V : Type} [DoubleOps V] [Zero V] [Add V]

/-- Reference definition, from the specification: the statistics lines 285-296 write from aggregated
attribute `a` on, taken from the kernels the accepted snapshots of key `K` fold; an attribute whose
kernel counted no value is skipped. -/
def keyStatistics (cfg : Config) (aggr : List UInt64) (acc : List (List UInt8 × List (Immediate V)))
    (K : List UInt8) : Nat → Nat → List (UInt64 × FlushValue V)
  | 0, _ => []
  | n + 1, a =>
    if (keyKernel (aggr.getD a 0) acc K).count = 0 then keyStatistics cfg aggr acc K n (a + 1)
    else
      let s := cfg.statsAttributes.getD a (0, 0, 0)
      [(s.1, .dbl (keyKernel (aggr.getD a 0) acc K).min),
        (s.2.1, .dbl (keyKernel (aggr.getD a 0) acc K).max),
        (s.2.2, .dbl (keyKernel (aggr.getD a 0) acc K).sum)] ++
        keyStatistics cfg aggr acc K n (a + 1)

/-- Reference definition, from the specification: the snapshot a flush writes for key `K` after the
accepted snapshots `acc`: the key decoded, the statistics of its folded kernels, and its count as a
`uint32_t`. -/
def keyReport (cfg : Config) (aggr : List UInt64) (acc : List (List UInt8 × List (Immediate V)))
    (beyond : Nat → UInt8) (K : List UInt8) : FlushedSnapshot V :=
  let d := decodeKey cfg (keyBuffer K beyond)
  ⟨d.nodes,
    d.keyValues.map (fun kv => (kv.1, .bits kv.2)) ++
      keyStatistics cfg aggr acc K (min aggr.length (snapMax / 3)) 0 ++
      [(cfg.countAttribute, .uint (UInt32.ofNat (keyCount acc K)).toUInt64)]⟩

end Spec

namespace AggregateDB

variable {V : Type} [DoubleOps V] [Zero V] [Add V]

omit [DoubleOps V] [Zero V] [Add V] in
/-- A record of `flush` is a node with a positive count, under its path from the root. -/
theorem mem_flush {db : AggregateDB V} (h : TrieInv db.trie db.numTrieEntries) (K : List UInt8)
    (x : Nat) : (K, x) ∈ db.flush ↔ lookup db.trie K = some x ∧ 0 < (db.node x).count := by
  unfold flush
  rw [root_get]
  split_ifs with h0
  · rw [mem_recursiveFlush h _ [] 0 h0 (by omega), lookup_eq_some]
    simp [h0]
  · simp [recursiveFlush_none, lookup_eq_some, h0]

/-- After a run, the statistics of the node of an accepted key are those of its folded kernels:
`k_id + a` does not wrap, and each kernel is allocated. -/
theorem RunInv.statistics_eq {d : AggregateDB V} {acc : List (List UInt8 × List (Immediate V))}
    (h : RunInv d acc) (hN : d.numKernelEntries < 2 ^ 32 - 1) {K : List UInt8} {e : Nat}
    (he : lookup d.trie K = some e) (hK : 0 < keyCount acc K) (cfg : Config) :
    ∀ n a, a + n ≤ d.aggrAttributes.length →
      d.statistics cfg e n a = keyStatistics cfg d.aggrAttributes acc K n a
  | 0, _, _ => rfl
  | n + 1, a, ha => by
    obtain ⟨e', he', -, hkid, hker⟩ := h.refines.holds K hK
    obtain rfl : e = e' := Option.some.inj (he.symm.trans he')
    have hA : a < d.aggrAttributes.length := by omega
    obtain ⟨hle, hal⟩ := h.kernels.range e (allocated_of_lookup he) (hkid (by omega))
    have hid : ((d.node e).kId + UInt32.ofNat a).toNat = (d.node e).kId.toNat + a := by
      rw [toNat_uint32_add, toNat_uint32_ofNat, Nat.mod_eq_of_lt (by omega : a < 2 ^ 32),
        Nat.mod_eq_of_lt (by omega)]
    have hget : (d.kernels.get AggregateKernel.init ((d.node e).kId + UInt32.ofNat a).toNat
        false).1 = some ((d.node e).kId.toNat + a) := by
      rw [hid, BlockAlloc.get_fst, if_pos ⟨h.kernels.block_le _ (hal a hA), .inl (hal a hA)⟩]
    simp only [statistics, keyStatistics, hget, hker a hA,
      RunInv.statistics_eq h hN he hK cfg n (a + 1) (by omega)]

/-- After a run, the records of `flush` are the nodes of the keys accepted a number of times that
is not a multiple of `2^32`. -/
theorem RunInv.mem_flush_iff {d : AggregateDB V} {acc : List (List UInt8 × List (Immediate V))}
    (h : RunInv d acc) (K : List UInt8) (x : Nat) :
    (K, x) ∈ d.flush ↔ lookup d.trie K = some x ∧ keyCount acc K % 2 ^ 32 ≠ 0 := by
  rw [mem_flush h.trie]
  refine and_congr_right fun hl => ?_
  show 0 < (d.node x).count.toNat ↔ _
  rw [(h.count_kernels hl).1]
  exact Nat.pos_iff_ne_zero

/-- After a run, the keys of `flush` are those accepted a number of times that is not a multiple
of `2^32`. -/
theorem RunInv.mem_flush_keys {d : AggregateDB V} {acc : List (List UInt8 × List (Immediate V))}
    (h : RunInv d acc) (K : List UInt8) :
    K ∈ d.flush.map Prod.fst ↔ keyCount acc K % 2 ^ 32 ≠ 0 := by
  simp only [List.mem_map, Prod.exists, exists_and_right, exists_eq_right, h.mem_flush_iff]
  refine ⟨And.right, fun hK => ⟨?_, hK⟩⟩
  obtain ⟨e, he, -⟩ := h.refines.holds K (Nat.pos_of_ne_zero fun h0 => hK (by rw [h0]; rfl))
  exact ⟨e, he⟩

/-- After a run of `process_snapshot` calls from construction or a `clear()`, while the kernel
counter stays below `2^32 - 1` and no `BlockAlloc::get` reads `m_blocks[MAX_BLOCKS]`, `flush`
writes the keys accepted a number of times that is not a multiple of `2^32`, each once and in
lexicographic order, and for each the snapshot `keyReport` makes of the accepted calls: the key
decoded, the statistics of the kernels folded over the accepted values of each aggregated
attribute, and the count of accepted snapshots modulo `2^32`. -/
theorem flushedSnapshots_runCalls {db : AggregateDB V} (hs : db.Start) (calls : List (Call V))
    (hk : (db.runCalls calls).numKernelEntries < 2 ^ 32 - 1) (cfg : Config)
    (beyond : Nat → UInt8) :
    (db.runCalls calls).InBounds →
    let d := db.runCalls calls
    let acc := db.acceptedCalls calls
    (d.flush.map Prod.fst).Sorted (List.Lex (· < ·)) ∧
      (∀ K, K ∈ d.flush.map Prod.fst ↔ keyCount acc K % 2 ^ 32 ≠ 0) ∧
      d.flushedSnapshots cfg beyond =
        (d.flush.map Prod.fst).map (keyReport cfg d.aggrAttributes acc beyond) := by
  intro _ d acc
  have h : RunInv d acc := by simpa using (runCalls_spec calls hs.runInv hk).2
  refine ⟨List.pairwise_map.mpr (recursiveFlush_sorted _ _ _ _), h.mem_flush_keys, ?_⟩
  rw [flushedSnapshots, List.map_map]
  refine List.map_congr_left fun r hr => ?_
  obtain ⟨hl, hK⟩ := (h.mem_flush_iff r.1 r.2).mp hr
  have hpos : 0 < keyCount acc r.1 := Nat.pos_of_ne_zero fun h0 => hK (by rw [h0]; rfl)
  have hcount : (d.node r.2).count = UInt32.ofNat (keyCount acc r.1) :=
    UInt32.toNat.inj (by rw [(h.count_kernels hl).1, toNat_uint32_ofNat])
  simp only [Function.comp, writeAggregatedSnapshot, keyReport, hcount,
    h.statistics_eq hk hl hpos cfg (min d.aggrAttributes.length (snapMax / 3)) 0 (by omega)]

/-- One snapshot with a value of the aggregated attribute, on a new database. -/
theorem flushedSnapshots_one_call :
    let db := (new [7] 0 0 : AggregateDB Float)
    let calls : List (Call Float) :=
      [⟨⟨0, [], [(1, 2, 3)], 4⟩, ⟨false, fun _ => none⟩, ⟨[⟨⟨5, 7⟩, []⟩], [⟨7, 0, 2.5⟩]⟩⟩]
    db.Start ∧ (db.runCalls calls).numKernelEntries < 2 ^ 32 - 1 ∧ (db.runCalls calls).InBounds ∧
      let d := db.runCalls calls
      let acc := db.acceptedCalls calls
      (d.flush.map Prod.fst).Sorted (List.Lex (· < ·)) ∧
        (∀ K, K ∈ d.flush.map Prod.fst ↔ keyCount acc K % 2 ^ 32 ≠ 0) ∧
        d.flushedSnapshots ⟨0, [], [(1, 2, 3)], 4⟩ (fun _ => 0) =
          (d.flush.map Prod.fst).map
            (keyReport ⟨0, [], [(1, 2, 3)], 4⟩ d.aggrAttributes acc fun _ => 0) :=
  ⟨start_new [7] 0 0, by decide, by decide,
    flushedSnapshots_runCalls (start_new [7] 0 0) _ (by decide) ⟨0, [], [(1, 2, 3)], 4⟩ _
      (by decide)⟩

end AggregateDB

end CaliperAggregate
