import CaliperAggregate.Proofs.ServiceSafety
import CaliperAggregate.Proofs.Accounting

/-!
# The service loses no snapshot and counts none twice

Every snapshot `process_snapshot_cb` is handed is counted once. It ends up in one of three places:
the count of a snapshot `flush_cb` writes, `s_global_num_dropped`, or a database still on
`s_list`, which holds it at a trie node or in `m_num_dropped` until the next flush
(`run_accounts`). An empty snapshot is counted only when the thread has no database: then
`process_snapshot_cb` adds it to `s_global_num_dropped`.

A database counts each snapshot once (`Counted.processSnapshot`, from `numDropped_runCalls`). A
flush moves what each database held into the counts it writes and into `s_global_num_dropped`,
and leaves it holding none (`Accounts.flushCb`). No other callback moves a count. The counters
must not wrap. While fewer than `2^32 / (A + 1)` snapshots arrive, `A` bounding the aggregated
attributes, neither a node's count nor a kernel counter does.

After a final flush no database holds anything (`pending_flushCb`), so the number `finish_cb`
reports as dropped is exactly what was handed to the service and not written
(`run_flush_finishCb`).
-/

namespace CaliperAggregate

/-- Reference definition, from the specification: the count a snapshot written by a flush carries,
in its last entry `(count_attr, node.count)`. -/
def FlushedSnapshot.count {V : Type} (f : FlushedSnapshot V) : Nat :=
  match f.immediates.getLast? with
  | some (_, .uint n) => n.toNat
  | _ => 0

/-- The aggregated attributes a database built during the callback would have. -/
def ServiceEvent.aggr {V : Type} : ServiceEvent V → List UInt64
  | .processSnapshot _ _ _ aggr _ _ | .postInit _ _ aggr _ _ => aggr
  | .createAttribute .. | .flush _ | .threadExit _ => []

/-- Whether the callback is `process_snapshot_cb`. -/
def ServiceEvent.isProcessSnapshot {V : Type} : ServiceEvent V → Bool
  | .processSnapshot .. => true
  | .postInit .. | .createAttribute .. | .flush _ | .threadExit _ => false

namespace AggregateDB

variable {V : Type} [DoubleOps V] [Zero V] [Add V]

/-- The snapshots a database holds until its next flush: those counted at its trie nodes, and
those it dropped. -/
def held (db : AggregateDB V) : Nat :=
  (db.flush.map fun r => (db.node r.2).count.toNat).sum + db.numDropped

/-- A call adds at most the database's aggregated attributes to its kernel counter. -/
theorem numKernelEntries_processSnapshot_le {db : AggregateDB V} (cfg : Config) (c : Host)
    (snap : SnapshotRecord V) (h : TrieInv db.trie db.numTrieEntries) :
    (db.processSnapshot cfg c snap).numKernelEntries ≤
      db.numKernelEntries + db.aggrAttributes.length := by
  unfold processSnapshot
  split_ifs
  · exact Nat.le_add_right _ _
  dsimp only
  generalize max (buildKey cfg c snap).key.length db.maxKeylen = m
  generalize hdb₁ : { db with maxKeylen := m } = db₁
  obtain ⟨⟨o, w⟩, hg, -, hfind⟩ :=
    findEntry_spec (show TrieInv db₁.trie db₁.numTrieEntries by rw [← hdb₁]; exact h) _
      (!c.isSignal)
  dsimp only at hg hfind
  rw [hfind]
  -- the walk keeps the kernel counter and the aggregated attributes; `allocKernels` adds these
  have hw : w.numKernelEntries + w.aggrAttributes.length =
      db.numKernelEntries + db.aggrAttributes.length := by
    obtain ⟨t, N, ht⟩ := hg.frame
    rw [show w = _ from ht, ← hdb₁]
  have hw₀ : w.numKernelEntries ≤ db.numKernelEntries + db.aggrAttributes.length := by omega
  cases o with
  | none => exact hw₀
  | some x =>
    dsimp only [Option.elim]
    rcases allocKernels_cases w x (!c.isSignal) with ⟨-, ha⟩ | ⟨-, -, ok, ks, -, -, ha⟩ <;>
      rw [ha]
    · dsimp only
      rw [updateKernels_frame]
      exact hw₀
    · cases ok
      · exact hw.le
      · rw [if_pos rfl]
        dsimp only
        rw [updateKernels_frame]
        exact hw.le

variable (A : Nat)

/-- The database refines the snapshots `acc` it accepted, at most `k` of them; it has at most `A`
aggregated attributes, and its kernel counter is at most `k * A`. -/
structure Counted (k : Nat) (db : AggregateDB V) (acc : List (List UInt8 × List (Immediate V))) :
    Prop where
  run : RunInv db acc
  accepted : acc.length ≤ k
  kernels : db.numKernelEntries ≤ k * A
  aggr : db.aggrAttributes.length ≤ A

variable {A} {k : Nat} {db : AggregateDB V} {acc : List (List UInt8 × List (Immediate V))}

theorem Counted.mono (h : db.Counted A k acc) {k' : Nat} (hk : k ≤ k') : db.Counted A k' acc :=
  ⟨h.run, h.accepted.trans hk, h.kernels.trans (Nat.mul_le_mul_right A hk), h.aggr⟩

theorem counted_start (hs : db.Start) (hA : db.aggrAttributes.length ≤ A) (k : Nat) :
    db.Counted A k [] :=
  ⟨hs.runInv, Nat.zero_le _, hs.numKernelEntries_eq ▸ Nat.zero_le _, hA⟩

/-- While fewer than `2^32` snapshots were accepted, the counts a database holds are its accepted
snapshots, each once. -/
theorem Counted.held_eq (h : db.Counted A k acc) (hk : k < 2 ^ 32) :
    db.held = acc.length + db.numDropped := by
  rw [held, h.run.sum_flush_counts (h.accepted.trans_lt hk)]

/-- A call adds its snapshot, if it is not empty, once to what the database holds. -/
theorem Counted.processSnapshot (h : db.Counted A k acc) (hb : (k + 1) * (A + 1) < 2 ^ 32)
    (cfg : Config) (c : Host) (snap : SnapshotRecord V) :
    ∃ acc', (db.processSnapshot cfg c snap).Counted A (k + 1) acc' ∧
      (db.processSnapshot cfg c snap).held = db.held + if IsEmpty snap then 0 else 1 := by
  have hb' : (k + 1) * A + (k + 1) < 2 ^ 32 := by rwa [Nat.mul_succ] at hb
  have hN : (db.processSnapshot cfg c snap).numKernelEntries ≤ (k + 1) * A :=
    calc _ ≤ db.numKernelEntries + db.aggrAttributes.length :=
          numKernelEntries_processSnapshot_le cfg c snap h.run.trie
      _ ≤ k * A + A := Nat.add_le_add h.kernels h.aggr
      _ = (k + 1) * A := (Nat.succ_mul k A).symm
  have hN₁ : (db.runCalls [⟨cfg, c, snap⟩]).numKernelEntries < 2 ^ 32 - 1 := by
    show (db.processSnapshot cfg c snap).numKernelEntries < _
    omega
  obtain ⟨-, hrun⟩ := runCalls_spec [⟨cfg, c, snap⟩] h.run hN₁
  have hlen : (db.acceptedCalls [⟨cfg, c, snap⟩]).length ≤ 1 := by
    simp only [acceptedCalls, List.append_nil]
    split_ifs <;> simp
  have hd := numDropped_runCalls [⟨cfg, c, snap⟩] db
  simp only [runCalls_cons, runCalls_nil] at hrun hd
  have hc : (db.processSnapshot cfg c snap).Counted A (k + 1)
      (acc ++ db.acceptedCalls [⟨cfg, c, snap⟩]) :=
    ⟨hrun, by rw [List.length_append]; have := h.accepted; omega, hN,
      (processSnapshot_keepsFlags cfg c snap db).aggr ▸ h.aggr⟩
  refine ⟨_, hc, ?_⟩
  rw [hc.held_eq (by omega), h.held_eq (by omega), List.length_append]
  by_cases he : IsEmpty snap <;> simp [he] at hd ⊢ <;> omega

theorem Counted.retire (h : db.Counted A k acc) :
    ({ db with retired := true } : AggregateDB V).Counted A k acc :=
  ⟨h.run.congr rfl rfl rfl rfl rfl, h.accepted, h.kernels, h.aggr⟩

omit [Add V] in
theorem start_clear_running (db : AggregateDB V) :
    ({ db.clear with stopped := false } : AggregateDB V).Start :=
  let hs := start_clear db
  ⟨hs.1, hs.2, hs.3, hs.4⟩

/-- A database `clear()` leaves holds no snapshot. -/
theorem held_clear (db : AggregateDB V) :
    ({ db.clear with stopped := false } : AggregateDB V).held = 0 :=
  (counted_start (A := db.aggrAttributes.length) (start_clear_running db) le_rfl 0).held_eq
    (Nat.two_pow_pos 32)

omit [DoubleOps V] [Zero V] [Add V] in
/-- `m_retired` is no part of what a database holds. -/
theorem held_retire (db : AggregateDB V) :
    ({ db with retired := true } : AggregateDB V).held = db.held := by
  simp only [held, flush, node, recursiveFlush_congr db { db with retired := true } rfl]

theorem toNat_uint32_toUInt64 (x : UInt32) : x.toUInt64.toNat = x.toNat := rfl

omit [Add V] in
/-- The counts of the snapshots a flush writes are those at the database's nodes. -/
theorem count_flushedSnapshots (cfg : Config) (db : AggregateDB V) (beyond : Nat → UInt8) :
    ((db.flushedSnapshots cfg beyond).map FlushedSnapshot.count).sum + db.numDropped = db.held := by
  simp [flushedSnapshots, held, writeAggregatedSnapshot, FlushedSnapshot.count, Function.comp_def,
    toNat_uint32_toUInt64]

end AggregateDB

namespace Service

variable {V : Type} [DoubleOps V] [Zero V] [Add V] {s : Service V}

/-- The snapshots the databases on `s_list` hold. -/
def pending (s : Service V) : Nat := (s.list.map fun d => (s.db d).held).sum

/-- Reference definition, from the specification: the snapshots a callback hands the service to
account for: each one that is not empty, and each one `process_snapshot_cb` drops because the thread
has no database and may not allocate one. -/
def toAccount (s : Service V) : ServiceEvent V → Nat
  | .processSnapshot t c snap .. =>
    if ¬ AggregateDB.IsEmpty snap ∨ (s.slot t = none ∧ c.isSignal = true) then 1 else 0
  | .postInit .. | .createAttribute .. | .flush _ | .threadExit _ => 0

/-- Reference definition, from the specification: the snapshots the callbacks `evs` hand the service
to account for. -/
def received (base : Config) : Service V → List (ServiceEvent V) → Nat
  | _, [] => 0
  | s, e :: evs => s.toAccount e + received base (s.step base e) evs

/-- On a list without repeats, changing one term of a sum changes the sum by as much. -/
theorem sum_map_update {f g : Nat → Nat} {d : Nat} (hg : ∀ x, x ≠ d → g x = f x) :
    ∀ {l : List Nat}, l.Nodup → d ∈ l → (l.map g).sum + f d = (l.map f).sum + g d
  | x :: l, hl, hd => by
    obtain ⟨hx, hl⟩ := List.nodup_cons.mp hl
    simp only [List.map_cons, List.sum_cons]
    by_cases hxd : x = d
    · subst hxd
      rw [List.map_congr_left fun y hy => hg y fun h => hx (h ▸ hy)]
      omega
    · have := sum_map_update hg hl ((List.mem_cons.mp hd).resolve_left (Ne.symm hxd))
      rw [hg x hxd]
      omega

/-- `process_snapshot_cb` between callbacks: the thread's database ingests the snapshot; a thread
without one takes a new one that ingests it, or drops the snapshot if it may not allocate. -/
theorem processSnapshotCb_eq (h : s.Inv) (base : Config) (t : Nat) (c : Host)
    (snap : SnapshotRecord V) {fresh : AggregateDB V} (hf : fresh.stopped = false) :
    s.processSnapshotCb base t c snap fresh =
      match s.slot t with
      | some d =>
        { s with db := Function.update s.db d ((s.db d).processSnapshot (s.config base) c snap) }
      | none =>
        if c.isSignal then { s with globalDropped := s.globalDropped + 1 }
        else s.adopt t (fresh.processSnapshot (s.config base) c snap) := by
  unfold Service.processSnapshotCb CaliperAggregate.processSnapshotCb acquire
  cases ht : s.slot t with
  | some d =>
    simp only [Option.map_some', h.running d (h.slot_mem t d ht), Bool.false_eq_true, if_false,
      store, ht]
  | none => cases c.isSignal <;> simp [hf, store]; rfl

omit [DoubleOps V] [Zero V] [Add V] in
/-- `post_init_cb` between callbacks: a thread without a database takes a new one. -/
theorem postInitCb_eq (t : Nat) (lookup : String → Option UInt64) (fresh : AggregateDB V) :
    s.postInitCb t lookup fresh =
      match s.slot t with
      | some _ => { s with keys := s.keys.postInit lookup }
      | none => { s.adopt t fresh with keys := s.keys.postInit lookup } := by
  unfold Service.postInitCb acquire
  cases ht : s.slot t <;> simp [store, ht]

/-- `flush_cb` leaves each database still on the list cleared. -/
theorem flushCb_db_of_mem (h : s.Inv) (base : Config) (beyond : Nat → UInt8) :
    ∀ x ∈ (s.flushCb base beyond).1.list, x ∈ s.list ∧
      (s.flushCb base beyond).1.db x = { (s.db x).clear with stopped := false } := by
  obtain ⟨-, -, -, hdb, hlist, -⟩ := flushCb_eq base beyond h.nodup
  intro x hx
  rw [hlist] at hx
  have hx' := List.mem_of_mem_filter hx
  exact ⟨hx', by rw [hdb, if_pos hx']⟩

/-- After `flush_cb` the databases on the list hold no snapshot. -/
theorem pending_flushCb (h : s.Inv) (base : Config) (beyond : Nat → UInt8) :
    (s.flushCb base beyond).1.pending = 0 :=
  List.sum_eq_zero fun n hn => by
    obtain ⟨x, hx, rfl⟩ := List.mem_map.mp hn
    rw [(flushCb_db_of_mem h base beyond x hx).2, AggregateDB.held_clear]

section Accounts

variable (A : Nat)

/-- The service keeps its invariant, and each database on `s_list` counts what it holds, after
at most `k` snapshots, with at most `A` aggregated attributes. -/
structure Accounts (k : Nat) (s : Service V) : Prop where
  inv : s.Inv
  counted : ∀ d ∈ s.list, ∃ acc, (s.db d).Counted A k acc

variable {A} {k : Nat}

theorem Accounts.congr {s' : Service V} (h : s.Accounts A k) (hslot : s'.slot = s.slot)
    (hdb : s'.db = s.db) (hl : s'.list = s.list) (hf : s'.fresh = s.fresh) : s'.Accounts A k :=
  ⟨h.inv.congr hslot hdb hl hf, hdb ▸ hl ▸ h.counted⟩

theorem Accounts.mono (h : s.Accounts A k) {k' : Nat} (hk : k ≤ k') : s.Accounts A k' :=
  ⟨h.inv, fun d hd => (h.counted d hd).imp fun _ hc => hc.mono hk⟩

/-- A thread that takes a new database adds what it holds to what the list holds. -/
theorem Accounts.adopt (h : s.Accounts A k) (t : Nat) {db : AggregateDB V} {acc}
    (hr : AggregateDB.Reachable db) (hs : db.stopped = false) (hret : db.retired = false)
    (hc : db.Counted A k acc) :
    (s.adopt t db).Accounts A k ∧ (s.adopt t db).pending = db.held + s.pending := by
  have hsame : ∀ x ∈ s.list, Function.update s.db s.fresh db x = s.db x := fun x hx =>
    Function.update_noteq (Nat.ne_of_lt (h.inv.lt_fresh x hx)) _ _
  refine ⟨⟨h.inv.adopt t hr hs hret, fun x hx => ?_⟩, ?_⟩
  · rcases List.mem_cons.mp hx with rfl | hx
    · exact ⟨acc, by simpa [Service.adopt] using hc⟩
    · simpa only [Service.adopt, hsame x hx] using h.counted x hx
  · simp only [pending, Service.adopt, List.map_cons, List.sum_cons, Function.update_same,
      List.map_congr_left fun x hx => congrArg AggregateDB.held (hsame x hx)]

/-- A new database holds no snapshot. -/
theorem counted_new (aggr : List UInt64) (tb kb : Nat) (hA : aggr.length ≤ A) :
    (AggregateDB.new aggr tb kb : AggregateDB V).Counted A k [] ∧
      (AggregateDB.new aggr tb kb : AggregateDB V).held = 0 :=
  have hc := AggregateDB.counted_start (AggregateDB.start_new aggr tb kb) hA 0
  ⟨hc.mono k.zero_le, hc.held_eq (Nat.two_pow_pos 32)⟩

theorem Accounts.processSnapshotCb (h : s.Accounts A k) (hb : (k + 1) * (A + 1) < 2 ^ 32)
    (base : Config) (t : Nat) (c : Host) (snap : SnapshotRecord V) (aggr : List UInt64)
    (tb kb : Nat) (hA : aggr.length ≤ A) :
    (s.processSnapshotCb base t c snap (.new aggr tb kb)).Accounts A (k + 1) ∧
      (s.processSnapshotCb base t c snap (.new aggr tb kb)).globalDropped +
          (s.processSnapshotCb base t c snap (.new aggr tb kb)).pending =
        s.globalDropped + s.pending + s.toAccount (.processSnapshot t c snap aggr tb kb) := by
  have hinv := h.inv.processSnapshotCb base t c snap (.new aggr tb kb) rfl rfl
  rw [processSnapshotCb_eq h.inv base t c snap rfl] at hinv ⊢
  simp only [toAccount]
  cases ht : s.slot t with
  | some d =>
    -- the thread's database ingests the snapshot
    simp only [ht, reduceCtorEq, false_and, or_false] at hinv ⊢
    have hd := h.inv.slot_mem t d ht
    obtain ⟨acc, hc⟩ := h.counted d hd
    obtain ⟨acc', hc', hheld⟩ := hc.processSnapshot hb (s.config base) c snap
    refine ⟨⟨hinv, fun x hx => ?_⟩, ?_⟩
    · by_cases hxd : x = d
      · subst hxd
        exact ⟨acc', by simpa using hc'⟩
      · simpa [Function.update_noteq hxd] using (h.counted x hx).imp fun _ hc => hc.mono k.le_succ
    · have := sum_map_update (f := fun x => (s.db x).held)
        (g := fun x => (Function.update s.db d ((s.db d).processSnapshot (s.config base) c snap)
          x).held) (fun x hxd => by simp only [Function.update_noteq hxd]) h.inv.nodup hd
      simp only [Function.update_same] at this
      simp only [pending]
      by_cases he : AggregateDB.IsEmpty snap <;> simp only [he, if_true, if_false,
        not_true_eq_false, not_false_eq_true] at hheld ⊢ <;> omega
  | none =>
    simp only [ht, true_and] at hinv ⊢
    cases hsig : c.isSignal
    · -- a new database ingests the snapshot
      simp only [Bool.false_eq_true, if_false, or_false]
      obtain ⟨hc, h0⟩ := counted_new (V := V) (k := k) aggr tb kb hA
      obtain ⟨acc', hc', hheld⟩ := hc.processSnapshot hb (s.config base) c snap
      have hkf := AggregateDB.processSnapshot_keepsFlags (s.config base) c snap
        (AggregateDB.new aggr tb kb)
      obtain ⟨hacc, hpend⟩ := (h.mono k.le_succ).adopt t
        (.processSnapshot _ _ _ (.new aggr tb kb)) hkf.stopped hkf.retired hc'
      refine ⟨hacc, ?_⟩
      rw [hpend, hheld, h0]
      by_cases he : AggregateDB.IsEmpty snap <;> simp only [he, if_true, if_false,
        not_true_eq_false, not_false_eq_true, Service.adopt] <;> omega
    · -- the snapshot is dropped
      exact ⟨(h.mono k.le_succ).congr rfl rfl rfl rfl, by simp [pending]; omega⟩

theorem Accounts.postInitCb (h : s.Accounts A k) (t : Nat) (lookup : String → Option UInt64)
    (aggr : List UInt64) (tb kb : Nat) (hA : aggr.length ≤ A) :
    (s.postInitCb t lookup (.new aggr tb kb)).Accounts A k ∧
      (s.postInitCb t lookup (.new aggr tb kb)).globalDropped +
          (s.postInitCb t lookup (.new aggr tb kb)).pending = s.globalDropped + s.pending := by
  rw [postInitCb_eq]
  cases s.slot t with
  | some _ => exact ⟨h.congr rfl rfl rfl rfl, rfl⟩
  | none =>
    obtain ⟨hc, h0⟩ := counted_new (V := V) (k := k) aggr tb kb hA
    obtain ⟨hacc, hpend⟩ := h.adopt t (.new aggr tb kb) rfl rfl hc
    exact ⟨hacc.congr rfl rfl rfl rfl, by
      simp only [pending] at hpend ⊢
      rw [hpend, h0, Nat.zero_add]
      rfl⟩

theorem Accounts.threadExit (h : s.Accounts A k) (t : Nat) :
    (s.threadExit t).Accounts A k ∧
      (s.threadExit t).globalDropped + (s.threadExit t).pending = s.globalDropped + s.pending := by
  have hinv := h.inv.threadExit t
  unfold Service.threadExit at hinv ⊢
  cases ht : s.slot t with
  | none => exact ⟨h, rfl⟩
  | some d =>
    simp only [ht] at hinv ⊢
    -- the retired database holds what it held
    have hheld : ∀ x, (Function.update s.db d { s.db d with retired := true } x).held =
        (s.db x).held := fun x => by
      by_cases hxd : x = d
      · subst hxd
        rw [Function.update_same, AggregateDB.held_retire]
      · rw [Function.update_noteq hxd]
    refine ⟨⟨hinv, fun x hx => ?_⟩, by simp only [pending, hheld]⟩
    obtain ⟨acc, hc⟩ := h.counted x hx
    by_cases hxd : x = d
    · subst hxd
      exact ⟨acc, by simpa using hc.retire⟩
    · exact ⟨acc, by simpa [Function.update_noteq hxd] using hc⟩

/-- `flush_cb` writes, as counts and into `s_global_num_dropped`, what the databases held, and
leaves each holding none. -/
theorem Accounts.flushCb (h : s.Accounts A k) (base : Config) (beyond : Nat → UInt8) :
    (s.flushCb base beyond).1.Accounts A k ∧
      ((s.flushCb base beyond).2.map FlushedSnapshot.count).sum +
          (s.flushCb base beyond).1.globalDropped + (s.flushCb base beyond).1.pending =
        s.globalDropped + s.pending := by
  obtain ⟨-, -, -, -, -, hout, hdropped⟩ := flushCb_eq base beyond h.inv.nodup
  refine ⟨⟨h.inv.flushCb base beyond, fun x hx => ?_⟩, ?_⟩
  · obtain ⟨hx', hclear⟩ := flushCb_db_of_mem h.inv base beyond x hx
    obtain ⟨_, hc⟩ := h.counted x hx'
    exact ⟨[], hclear ▸
      AggregateDB.counted_start (AggregateDB.start_clear_running _) hc.aggr k⟩
  · -- what each database held is now written or dropped
    rw [pending_flushCb h.inv, hout, hdropped, List.map_flatMap, List.flatMap_def,
      List.sum_flatten, List.map_map, pending, ← List.map_congr_left fun x _ =>
        AggregateDB.count_flushedSnapshots (s.config base) (s.db x) beyond, List.sum_map_add]
    simp only [Function.comp_def]
    omega

theorem Accounts.step (h : s.Accounts A k) (base : Config) (e : ServiceEvent V)
    (hA : e.aggr.length ≤ A)
    (hb : (k + if e.isProcessSnapshot then 1 else 0) * (A + 1) < 2 ^ 32) :
    (s.step base e).Accounts A (k + if e.isProcessSnapshot then 1 else 0) ∧
      ((s.written base e).map FlushedSnapshot.count).sum + (s.step base e).globalDropped +
          (s.step base e).pending = s.globalDropped + s.pending + s.toAccount e := by
  cases e with
  | processSnapshot t c snap aggr tb kb =>
    obtain ⟨h₁, h₂⟩ := h.processSnapshotCb hb base t c snap aggr tb kb hA
    exact ⟨h₁, by simpa [written] using h₂⟩
  | postInit t lookup aggr tb kb =>
    obtain ⟨h₁, h₂⟩ := h.postInitCb t lookup aggr tb kb hA
    exact ⟨h₁, by simpa [written, toAccount] using h₂⟩
  | createAttribute name id =>
    exact ⟨h.congr rfl rfl rfl rfl, by simp [written, toAccount]; rfl⟩
  | flush beyond =>
    obtain ⟨h₁, h₂⟩ := h.flushCb base beyond
    exact ⟨h₁, by simpa [written, toAccount] using h₂⟩
  | threadExit t =>
    obtain ⟨h₁, h₂⟩ := h.threadExit t
    exact ⟨h₁, by simpa [written, toAccount] using h₂⟩

/-- Over any callbacks from a state that accounts for its snapshots, none is lost and none is
counted twice, while the counters do not wrap. -/
theorem Accounts.run (base : Config) : ∀ (evs : List (ServiceEvent V)) {s : Service V} {k : Nat},
    s.Accounts A k → (∀ e ∈ evs, e.aggr.length ≤ A) →
    (k + evs.countP ServiceEvent.isProcessSnapshot) * (A + 1) < 2 ^ 32 →
    ((s.output base evs).map FlushedSnapshot.count).sum + (s.run base evs).globalDropped +
        (s.run base evs).pending = s.globalDropped + s.pending + s.received base evs
  | [], _, _, _, _, _ => by simp [output, Service.run, received]
  | e :: evs, s, k, h, hA, hb => by
    have hc : k + (e :: evs).countP ServiceEvent.isProcessSnapshot =
        (k + if e.isProcessSnapshot then 1 else 0) + evs.countP ServiceEvent.isProcessSnapshot := by
      rw [List.countP_cons]
      omega
    rw [hc] at hb
    obtain ⟨h₁, h₂⟩ := h.step base e (hA e (List.mem_cons_self _ _))
      (lt_of_le_of_lt (Nat.mul_le_mul_right _ (Nat.le_add_right _ _)) hb)
    have ih := Accounts.run base evs h₁ (fun e' he' => hA e' (List.mem_cons_of_mem _ he')) hb
    rw [output, received, Service.run, List.foldl_cons, ← Service.run, List.map_append,
      List.sum_append]
    omega

end Accounts

/-- After any callbacks from `init_static_data` on, while fewer than `2^32 / (A + 1)` snapshots
arrive, `A` bounding the aggregated attributes, and no `BlockAlloc::get` of any database reads
`m_blocks[MAX_BLOCKS]`, every snapshot handed to `process_snapshot_cb` that is not empty, or that
finds no database, is counted exactly once: in the count of a snapshot `flush_cb` wrote, in
`s_global_num_dropped`, or in what a database on `s_list` holds. -/
theorem run_accounts (base : Config) (invId : UInt64) (names : List String) (A : Nat)
    (evs : List (ServiceEvent V)) (hA : ∀ e ∈ evs, e.aggr.length ≤ A)
    (hP : evs.countP ServiceEvent.isProcessSnapshot * (A + 1) < 2 ^ 32) :
    (∀ d < ((init invId names : Service V).run base evs).fresh,
      (((init invId names : Service V).run base evs).db d).InBounds) →
    (((init invId names : Service V).output base evs).map FlushedSnapshot.count).sum +
        ((init invId names : Service V).run base evs).globalDropped +
        ((init invId names : Service V).run base evs).pending =
      (init invId names : Service V).received base evs := fun _ => by
  have h := Accounts.run base evs (s := init invId names) (k := 0)
    ⟨inv_init invId names, fun _ h => nomatch h⟩ hA (by rwa [Nat.zero_add])
  simpa [init, pending] using h

/-- A snapshot counted at its node and flushed, then an empty one, and one dropped in signal
context on a thread without a database. -/
theorem run_accounts_three_snapshots :
    let base : Config := ⟨0, [], [], 4⟩
    let evs : List (ServiceEvent Float) :=
      [.processSnapshot 1 ⟨false, fun _ => none⟩ ⟨[⟨⟨5, 7⟩, []⟩], [⟨7, 0, 2.5⟩]⟩ [7] 0 0,
        .flush fun _ => 0, .processSnapshot 1 ⟨false, fun _ => none⟩ ⟨[], []⟩ [7] 0 0,
        .processSnapshot 2 ⟨true, fun _ => none⟩ ⟨[⟨⟨5, 7⟩, []⟩], []⟩ [7] 0 0]
    (∀ e ∈ evs, e.aggr.length ≤ 1) ∧
      evs.countP ServiceEvent.isProcessSnapshot * (1 + 1) < 2 ^ 32 ∧
      (∀ d < ((init 0 [] : Service Float).run base evs).fresh,
        (((init 0 [] : Service Float).run base evs).db d).InBounds) ∧
      (((init 0 [] : Service Float).output base evs).map FlushedSnapshot.count).sum +
          ((init 0 [] : Service Float).run base evs).globalDropped +
          ((init 0 [] : Service Float).run base evs).pending =
        (init 0 [] : Service Float).received base evs :=
  ⟨by decide, by decide, by decide, run_accounts _ 0 [] 1 _ (by decide) (by decide) (by decide)⟩

/-- After any callbacks from `init_static_data` on that end with a flush, while fewer than
`2^32 / (A + 1)` snapshots arrive and no `BlockAlloc::get` of any database reads
`m_blocks[MAX_BLOCKS]`: `finish_cb` reports as dropped exactly the snapshots handed to the service
that no flush wrote, and reports no drop when every one of them was written. -/
theorem run_flush_finishCb (base : Config) (invId : UInt64) (names : List String) (A : Nat)
    (evs : List (ServiceEvent V)) (beyond : Nat → UInt8) (hA : ∀ e ∈ evs, e.aggr.length ≤ A)
    (hP : evs.countP ServiceEvent.isProcessSnapshot * (A + 1) < 2 ^ 32) :
    (∀ d < ((init invId names : Service V).run base (evs ++ [.flush beyond])).fresh,
      (((init invId names : Service V).run base (evs ++ [.flush beyond])).db d).InBounds) →
    let last := (init invId names : Service V).run base (evs ++ [.flush beyond])
    let written :=
      (((init invId names : Service V).output base (evs ++ [.flush beyond])).map
        FlushedSnapshot.count).sum
    let received := (init invId names : Service V).received base (evs ++ [.flush beyond])
    last.finishCb invId = KeyAttributes.finishWarnings invId last.keys ++
      if written < received then [droppedText (received - written)] else [] := by
  intro _ last written received
  have hA' : ∀ e ∈ evs ++ [.flush beyond], e.aggr.length ≤ A :=
    List.forall_mem_append.mpr ⟨hA, by simp [ServiceEvent.aggr]⟩
  have h := Accounts.run base (evs ++ [.flush beyond]) (s := init invId names) (k := 0)
    ⟨inv_init invId names, fun _ h => nomatch h⟩ hA' (by simpa [ServiceEvent.isProcessSnapshot])
  -- the last flush leaves nothing held, so what was not written was dropped
  have hpend : last.pending = 0 := by
    simp only [last, Service.run, List.foldl_append, List.foldl_cons, List.foldl_nil, step]
    exact pending_flushCb (Inv.run base evs (inv_init invId names)) base beyond
  have hdropped : last.globalDropped = received - written := by
    have h' : written + last.globalDropped + last.pending = 0 + 0 + received := h
    omega
  rw [finishCb, hdropped]
  by_cases hw : written < received
  · rw [if_pos (Nat.sub_pos_of_lt hw), if_pos hw]
  · rw [if_neg (by omega), if_neg hw]

/-- The run of `run_accounts_three_snapshots`, flushed at the end: the snapshot dropped in
signal context is reported. -/
theorem run_flush_finishCb_one_dropped :
    let base : Config := ⟨0, [], [], 4⟩
    let evs : List (ServiceEvent Float) :=
      [.processSnapshot 1 ⟨false, fun _ => none⟩ ⟨[⟨⟨5, 7⟩, []⟩], [⟨7, 0, 2.5⟩]⟩ [7] 0 0,
        .flush fun _ => 0, .processSnapshot 1 ⟨false, fun _ => none⟩ ⟨[], []⟩ [7] 0 0,
        .processSnapshot 2 ⟨true, fun _ => none⟩ ⟨[⟨⟨5, 7⟩, []⟩], []⟩ [7] 0 0]
    (∀ e ∈ evs, e.aggr.length ≤ 1) ∧
      evs.countP ServiceEvent.isProcessSnapshot * (1 + 1) < 2 ^ 32 ∧
      (∀ d < ((init 0 [] : Service Float).run base (evs ++ [.flush fun _ => 0])).fresh,
        (((init 0 [] : Service Float).run base (evs ++ [.flush fun _ => 0])).db d).InBounds) ∧
      ((init 0 [] : Service Float).run base (evs ++ [.flush fun _ => 0])).finishCb 0 =
        KeyAttributes.finishWarnings 0
            ((init 0 [] : Service Float).run base (evs ++ [.flush fun _ => 0])).keys ++
          if (((init 0 [] : Service Float).output base (evs ++ [.flush fun _ => 0])).map
              FlushedSnapshot.count).sum <
            (init 0 [] : Service Float).received base (evs ++ [.flush fun _ => 0])
          then [droppedText ((init 0 [] : Service Float).received base (evs ++ [.flush fun _ => 0]) -
            (((init 0 [] : Service Float).output base (evs ++ [.flush fun _ => 0])).map
              FlushedSnapshot.count).sum)]
          else [] :=
  ⟨by decide, by decide, by decide,
    run_flush_finishCb _ 0 [] 1 _ _ (by decide) (by decide) (by decide)⟩

end Service

end CaliperAggregate
