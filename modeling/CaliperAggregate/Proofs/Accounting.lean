import CaliperAggregate.Proofs.Report
import CaliperAggregate.Proofs.PreemptRuns

/-!
# Every snapshot is counted once

A call of `process_snapshot` on a snapshot that is not empty either counts it at one node
(line 509) or adds one to `m_num_dropped` (line 501); an empty one does neither
(`numDropped_processSnapshot`). Over a run, `m_num_dropped` and the accepted calls together are
the non-empty snapshots (`numDropped_runCalls`).

The counts `flush` writes are those of the accepted keys, each key once (`RunInv.mem_flush_keys`);
while fewer than `2^32` snapshots were accepted none wraps, and they add up to the accepted calls
(`RunInv.sum_flush_counts`). So the counts a flush writes and `m_num_dropped`, which `flush_cb`
adds to `s_global_num_dropped`, account for every non-empty snapshot since construction or the
last `clear()`, none lost and none twice (`flush_counts_add_up`).
-/

namespace CaliperAggregate

/-- A key's count is how often it occurs among the keys, for any lawful `==` on keys. -/
theorem keyCount_eq_count {V : Type} [BEq (List UInt8)] [LawfulBEq (List UInt8)]
    (acc : List (List UInt8 × List (Immediate V))) (K : List UInt8) :
    keyCount acc K = (acc.map Prod.fst).count K := by
  rw [keyCount, List.count, List.countP_map, List.countP_eq_length_filter]
  exact congrArg List.length (List.filter_congr fun r _ => by by_cases h : r.1 = K <;> simp [h])

theorem keyCount_le {V : Type} (acc : List (List UInt8 × List (Immediate V))) (K : List UInt8) :
    keyCount acc K ≤ acc.length :=
  List.length_filter_le _ _

namespace AggregateDB

variable {V : Type} [DoubleOps V] [Zero V] [Add V]

/-- A call adds at most one to `m_num_dropped`, and only for a snapshot that is not empty. -/
theorem numDropped_processSnapshot (cfg : Config) (c : Host) (snap : SnapshotRecord V)
    (db : AggregateDB V) :
    (db.processSnapshot cfg c snap).numDropped = db.numDropped ∨
      ¬ IsEmpty snap ∧ (db.processSnapshot cfg c snap).numDropped = db.numDropped + 1 := by
  unfold processSnapshot
  split_ifs with hne
  · exact .inl rfl
  · dsimp only
    have hd := findEntry_numDropped
      { db with maxKeylen := max (buildKey cfg c snap).key.length db.maxKeylen }
      (buildKey cfg c snap).key (!c.isSignal)
    split
    · exact .inr ⟨hne, congrArg (· + 1) hd⟩
    · rw [updateKernels_frame]
      exact .inl hd

/-- Over any run, from any state, the calls `m_num_dropped` counted and the accepted calls are the
calls on a snapshot that is not empty. -/
theorem numDropped_runCalls : ∀ (calls : List (Call V)) (db : AggregateDB V),
    (db.runCalls calls).numDropped + (db.acceptedCalls calls).length =
      db.numDropped + (calls.filter fun k => ¬ IsEmpty k.snap).length
  | [], _ => rfl
  | k :: ks, db => by
    have ih := numDropped_runCalls ks (db.processSnapshot k.cfg k.host k.snap)
    rw [runCalls_cons, acceptedCalls, List.length_append]
    by_cases hne : IsEmpty k.snap
    · -- an empty snapshot leaves the database as it was
      have hdb : db.processSnapshot k.cfg k.host k.snap = db := if_pos hne
      rw [List.filter_cons_of_neg (by simpa using hne), if_neg fun hc => hc.1 hne,
        List.length_nil, Nat.zero_add]
      rwa [hdb] at ih ⊢
    · rw [List.filter_cons_of_pos (by simpa using hne), List.length_cons]
      rcases numDropped_processSnapshot k.cfg k.host k.snap db with h | ⟨-, h⟩
      · rw [if_pos ⟨hne, h⟩, List.length_singleton]
        omega
      · rw [if_neg fun hc => Nat.succ_ne_self _ (h.symm.trans hc.2), List.length_nil]
        omega

/-- After a run, while fewer than `2^32` snapshots were accepted, the counts of the records of
`flush` add up to the accepted calls. -/
theorem RunInv.sum_flush_counts {d : AggregateDB V} {acc : List (List UInt8 × List (Immediate V))}
    (h : RunInv d acc) (hacc : acc.length < 2 ^ 32) :
    (d.flush.map fun r => (d.node r.2).count.toNat).sum = acc.length := by
  have hmod : ∀ K, keyCount acc K % 2 ^ 32 = keyCount acc K := fun K =>
    Nat.mod_eq_of_lt ((keyCount_le acc K).trans_lt hacc)
  -- the keys of `flush` are the accepted keys, each once
  have hnd : (d.flush.map Prod.fst).Pairwise (· ≠ ·) :=
    (List.pairwise_map.mpr (recursiveFlush_sorted _ _ _ _)).imp
      fun {K K'} (hlt : List.Lex (· < ·) K K') (he : K = K') => lex_lt_irrefl K' (he ▸ hlt)
  have hperm : (d.flush.map Prod.fst).Perm (acc.map Prod.fst).dedup :=
    (List.perm_ext_iff_of_nodup hnd (List.nodup_dedup _)).mpr fun K => by
      rw [h.mem_flush_keys, hmod, List.mem_dedup, keyCount_eq_count, Ne, List.count_eq_zero,
        not_not]
  calc (d.flush.map fun r => (d.node r.2).count.toNat).sum
      = ((d.flush.map Prod.fst).map (keyCount acc)).sum := by
        rw [List.map_map]
        congr 1
        refine List.map_congr_left fun r hr => ?_
        rw [Function.comp_apply, ← hmod]
        exact (h.count_kernels ((h.mem_flush_iff r.1 r.2).mp hr).1).1
    _ = ((acc.map Prod.fst).dedup.map (keyCount acc)).sum := (hperm.map _).sum_eq
    _ = acc.length := by
        rw [← List.length_map acc Prod.fst, ← List.sum_map_count_dedup_eq_length]
        congr! 3 with K
        exact @keyCount_eq_count V instBEqOfDecidableEq _ acc K

/-- After a run of `process_snapshot` calls from construction or a `clear()`, while the kernel
counter stays below `2^32 - 1`, fewer than `2^32` snapshots were accepted and no
`BlockAlloc::get` read `m_blocks[MAX_BLOCKS]`, the counts that `flush` writes and
`m_num_dropped` add up to the number of non-empty snapshots: each is counted once, at one node or
as dropped. -/
theorem flush_counts_add_up {db : AggregateDB V} (hs : db.Start) (calls : List (Call V))
    (hk : (db.runCalls calls).numKernelEntries < 2 ^ 32 - 1)
    (hacc : (db.acceptedCalls calls).length < 2 ^ 32) :
    (db.runCalls calls).InBounds →
    ((db.runCalls calls).flush.map fun r => ((db.runCalls calls).node r.2).count.toNat).sum +
        (db.runCalls calls).numDropped =
      db.numDropped + (calls.filter fun k => ¬ IsEmpty k.snap).length := fun _ => by
  have h : RunInv (db.runCalls calls) (db.acceptedCalls calls) := by
    simpa using (runCalls_spec calls hs.runInv hk).2
  rw [h.sum_flush_counts hacc, Nat.add_comm, numDropped_runCalls]

/-- A snapshot counted at its node, an empty one, and a signal-context one with a new key,
dropped. -/
theorem flush_counts_add_up_three_calls :
    let db := (new [7] 0 0 : AggregateDB Float)
    let calls : List (Call Float) :=
      [⟨⟨0, [], [(1, 2, 3)], 4⟩, ⟨false, fun _ => none⟩, ⟨[⟨⟨5, 7⟩, []⟩], [⟨7, 0, 2.5⟩]⟩⟩,
        ⟨⟨0, [], [(1, 2, 3)], 4⟩, ⟨false, fun _ => none⟩, ⟨[], []⟩⟩,
        ⟨⟨0, [], [(1, 2, 3)], 4⟩, ⟨true, fun _ => none⟩, ⟨[⟨⟨4, 7⟩, []⟩], []⟩⟩]
    db.Start ∧ (db.runCalls calls).numKernelEntries < 2 ^ 32 - 1 ∧
      (db.acceptedCalls calls).length < 2 ^ 32 ∧ (db.runCalls calls).InBounds ∧
      ((db.runCalls calls).flush.map fun r => ((db.runCalls calls).node r.2).count.toNat).sum +
          (db.runCalls calls).numDropped =
        db.numDropped + (calls.filter fun k => ¬ IsEmpty k.snap).length :=
  ⟨start_new [7] 0 0, by decide, by decide, by decide,
    flush_counts_add_up (start_new [7] 0 0) _ (by decide) (by decide) (by decide)⟩

end AggregateDB

end CaliperAggregate
