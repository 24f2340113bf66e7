import CaliperAggregate.Service
import CaliperAggregate.Proofs.Refinement

/-!
# The service keeps its databases apart and alive

Over any sequence of callbacks, `s_list` holds each database once; the database a thread's slot
holds is on it, not retired, and no other thread's; and every database on it is a state
`AggregateDB.Reachable` reaches, with `m_stopped` clear (`run_safe`). So a thread never ingests
into a deleted database, two threads never share one, and what is proved of a reachable database
holds of each.

One turn of `flush_cb`'s loop touches only its database (`flushTurn_eq`), so the whole loop writes
each database's snapshots in list order, adds their `m_num_dropped`, leaves each cleared, and
unlinks exactly the retired ones (`flushCb_spec`).
-/

namespace CaliperAggregate

namespace AggregateDB

variable {V : Type}

/-- `db'` has the flags and the aggregated attributes of `db`. -/
structure KeepsFlags (db db' : AggregateDB V) : Prop where
  stopped : db'.stopped = db.stopped
  retired : db'.retired = db.retired
  aggr : db'.aggrAttributes = db.aggrAttributes

theorem KeepsFlags.trans {db₁ db₂ db₃ : AggregateDB V} (h₁ : db₁.KeepsFlags db₂)
    (h₂ : db₂.KeepsFlags db₃) : db₁.KeepsFlags db₃ :=
  ⟨h₂.1.trans h₁.1, h₂.2.trans h₁.2, h₂.3.trans h₁.3⟩

theorem walk_keepsFlags (alloc : Bool) : ∀ (key : List UInt8) (db : AggregateDB V) (o : Option Nat),
    db.KeepsFlags (walk alloc db o key).2
  | [], _, none | _ :: _, _, none | [], _, some _ => ⟨rfl, rfl, rfl⟩
  | b :: bs, db, some e => by
    have h₁ : db.KeepsFlags (db.walkStep alloc e b).2 := by
      unfold walkStep
      split_ifs <;> exact ⟨rfl, rfl, rfl⟩
    exact h₁.trans (walk_keepsFlags alloc bs _ _)

variable [DoubleOps V] [Zero V]

theorem findEntry_keepsFlags (db : AggregateDB V) (key : List UInt8) (alloc : Bool) :
    db.KeepsFlags (db.findEntry key alloc).2 := by
  have hw : db.KeepsFlags (walk alloc { db with trie := (db.trie.get TrieNode.init 0 alloc).2 }
      (db.trie.get TrieNode.init 0 alloc).1 key).2 :=
    let h := walk_keepsFlags alloc key _ _
    ⟨h.1, h.2, h.3⟩
  unfold findEntry
  dsimp only
  split
  · exact hw
  · refine hw.trans ?_
    unfold allocKernels
    dsimp only
    split_ifs <;> exact ⟨rfl, rfl, rfl⟩

variable [Add V]

/-- `process_snapshot` writes neither flag nor the aggregated attributes. -/
theorem processSnapshot_keepsFlags (cfg : Config) (c : Host) (snap : SnapshotRecord V)
    (db : AggregateDB V) : db.KeepsFlags (db.processSnapshot cfg c snap) := by
  unfold processSnapshot
  split_ifs
  · exact ⟨rfl, rfl, rfl⟩
  have hf := findEntry_keepsFlags
    { db with maxKeylen := max (buildKey cfg c snap).key.length db.maxKeylen }
    (buildKey cfg c snap).key (!c.isSignal)
  dsimp only
  split
  · exact ⟨hf.1, hf.2, hf.3⟩
  · rw [updateKernels_frame]
    exact ⟨hf.1, hf.2, hf.3⟩

section Flush

omit [DoubleOps V] [Zero V] [Add V] in
theorem recursiveFlush_congr (db db' : AggregateDB V) (ht : db'.trie = db.trie) :
    ∀ fuel key o, db'.recursiveFlush fuel key o = db.recursiveFlush fuel key o
  | 0, _, _ | _ + 1, _, none => rfl
  | n + 1, key, some e => by
    simp only [recursiveFlush, node, ht, recursiveFlush_congr db db' ht n]

omit [Add V] in
theorem statistics_congr (db db' : AggregateDB V) (ht : db'.trie = db.trie)
    (hk : db'.kernels = db.kernels) (cfg : Config) (e : Nat) :
    ∀ n a, db'.statistics cfg e n a = db.statistics cfg e n a
  | 0, _ => rfl
  | n + 1, a => by
    simp only [statistics, node, kernel, ht, hk, statistics_congr db db' ht hk cfg e n]

omit [Add V] in
/-- `flush(c)` reads only the allocators, the trie counter and the aggregated attributes. -/
theorem flushedSnapshots_congr (db db' : AggregateDB V) (ht : db'.trie = db.trie)
    (hk : db'.kernels = db.kernels) (hN : db'.numTrieEntries = db.numTrieEntries)
    (ha : db'.aggrAttributes = db.aggrAttributes) (cfg : Config) (beyond : Nat → UInt8) :
    db'.flushedSnapshots cfg beyond = db.flushedSnapshots cfg beyond := by
  simp only [flushedSnapshots, flush, writeAggregatedSnapshot, recursiveFlush_congr db db' ht,
    statistics_congr db db' ht hk, node, ht, hN, ha]

omit [Add V] in
theorem flushedSnapshots_setStopped (db : AggregateDB V) (b : Bool) (cfg : Config)
    (beyond : Nat → UInt8) :
    ({ db with stopped := b } : AggregateDB V).flushedSnapshots cfg beyond =
      db.flushedSnapshots cfg beyond :=
  flushedSnapshots_congr db { db with stopped := b } rfl rfl rfl rfl cfg beyond

end Flush

end AggregateDB

namespace Service

variable {V : Type} [DoubleOps V] [Zero V] {s : Service V}

section Flush

variable (base : Config) (beyond : Nat → UInt8)

/-- One turn of `flush_cb`'s loop: database `d` flushed and cleared, its counters folded in, and
`d` unlinked if retired. -/
theorem flushTurn_eq (r : Service V × List (FlushedSnapshot V)) (d : Nat) :
    flushTurn base beyond r d =
      ({ r.1 with
          db := Function.update r.1.db d { (r.1.db d).clear with stopped := false }
          list := if (r.1.db d).retired then r.1.list.erase d else r.1.list
          globalDropped := r.1.globalDropped + (r.1.db d).numDropped
          stats := r.1.stats.fold (r.1.db d) },
        r.2 ++ (r.1.db d).flushedSnapshots (r.1.config base) beyond) := by
  unfold flushTurn flushOne reclaim
  simp only [AggregateDB.clear, Function.update_same, AggregateDB.flushedSnapshots_setStopped]
  split_ifs <;> rfl

theorem foldl_flushTurn_frame : ∀ (l : List Nat) (r : Service V × List (FlushedSnapshot V)),
    (l.foldl (flushTurn base beyond) r).1.slot = r.1.slot ∧
      (l.foldl (flushTurn base beyond) r).1.fresh = r.1.fresh ∧
      (l.foldl (flushTurn base beyond) r).1.keys = r.1.keys
  | [], _ => ⟨rfl, rfl, rfl⟩
  | d :: l, r => by
    obtain ⟨h₁, h₂, h₃⟩ := foldl_flushTurn_frame l (flushTurn base beyond r d)
    rw [List.foldl_cons]
    refine ⟨h₁.trans ?_, h₂.trans ?_, h₃.trans ?_⟩ <;> rw [flushTurn_eq]

theorem foldl_flushTurn_db : ∀ (l : List Nat), l.Nodup → ∀ (r : Service V × List (FlushedSnapshot V))
    (x : Nat), (l.foldl (flushTurn base beyond) r).1.db x =
      if x ∈ l then { (r.1.db x).clear with stopped := false } else r.1.db x
  | [], _, _, _ => rfl
  | d :: l, hl, r, x => by
    obtain ⟨hd, hl⟩ := List.nodup_cons.mp hl
    rw [List.foldl_cons, foldl_flushTurn_db l hl, flushTurn_eq]
    by_cases hx : x = d
    · subst hx
      simp [hd]
    · simp [hx]

theorem foldl_flushTurn_list : ∀ (l : List Nat), l.Nodup →
    ∀ (r : Service V × List (FlushedSnapshot V)), r.1.list.Nodup →
      (l.foldl (flushTurn base beyond) r).1.list =
        r.1.list.filter fun x => x ∉ l ∨ (r.1.db x).retired = false
  | [], _, r, _ => by simp
  | d :: l, hl, r, hr => by
    obtain ⟨hd, hl⟩ := List.nodup_cons.mp hl
    have hr₁ : (flushTurn base beyond r d).1.list.Nodup := by
      rw [flushTurn_eq]
      split_ifs
      exacts [hr.erase d, hr]
    rw [List.foldl_cons, foldl_flushTurn_list l hl _ hr₁, flushTurn_eq]
    dsimp only
    split_ifs with hret
    · -- a retired database is unlinked
      rw [hr.erase_eq_filter, List.filter_filter]
      refine List.filter_congr fun x _ => ?_
      by_cases hx : x = d
      · subst hx
        simp [hret]
      · simp [hx, Function.update_noteq hx]
    · refine List.filter_congr fun x _ => ?_
      by_cases hx : x = d
      · subst hx
        simp [hd, hret]
      · simp [hx, Function.update_noteq hx]

theorem foldl_flushTurn_out : ∀ (l : List Nat), l.Nodup →
    ∀ (r : Service V × List (FlushedSnapshot V)),
      (l.foldl (flushTurn base beyond) r).2 =
          r.2 ++ l.flatMap (fun x => (r.1.db x).flushedSnapshots (r.1.config base) beyond) ∧
        (l.foldl (flushTurn base beyond) r).1.globalDropped =
          r.1.globalDropped + (l.map fun x => (r.1.db x).numDropped).sum
  | [], _, r => by simp
  | d :: l, hl, r => by
    obtain ⟨hd, hl⟩ := List.nodup_cons.mp hl
    obtain ⟨h₁, h₂⟩ := foldl_flushTurn_out l hl (flushTurn base beyond r d)
    -- the turn on `d` leaves the other databases as they were
    have hsame : ∀ x ∈ l, (flushTurn base beyond r d).1.db x = r.1.db x := fun x hx => by
      rw [flushTurn_eq]
      exact Function.update_noteq (fun h : x = d => hd (h ▸ hx)) _ _
    rw [List.foldl_cons, h₁, h₂, List.flatMap_congr fun x hx => by rw [hsame x hx],
      List.map_congr_left fun x hx => by rw [hsame x hx], flushTurn_eq]
    simp only [List.flatMap_cons, List.append_assoc, List.map_cons, List.sum_cons, Nat.add_assoc,
      config, true_and]

/-- `flush_cb` on a list without repeats, field by field. -/
theorem flushCb_eq (hs : s.list.Nodup) :
    (s.flushCb base beyond).1.slot = s.slot ∧ (s.flushCb base beyond).1.fresh = s.fresh ∧
      (s.flushCb base beyond).1.keys = s.keys ∧
      (∀ x, (s.flushCb base beyond).1.db x =
        if x ∈ s.list then { (s.db x).clear with stopped := false } else s.db x) ∧
      (s.flushCb base beyond).1.list = s.list.filter (fun x => (s.db x).retired = false) ∧
      (s.flushCb base beyond).2 =
        s.list.flatMap (fun x => (s.db x).flushedSnapshots (s.config base) beyond) ∧
      (s.flushCb base beyond).1.globalDropped =
        s.globalDropped + (s.list.map fun x => (s.db x).numDropped).sum := by
  obtain ⟨h₁, h₂, h₃⟩ := foldl_flushTurn_frame base beyond s.list (s, [])
  obtain ⟨h₄, h₅⟩ := foldl_flushTurn_out base beyond s.list hs (s, [])
  refine ⟨h₁, h₂, h₃, foldl_flushTurn_db base beyond s.list hs (s, []), ?_, h₄, h₅⟩
  rw [flushCb, foldl_flushTurn_list base beyond s.list hs (s, []) hs]
  exact List.filter_congr fun x hx => by simp [hx]

end Flush

variable [Add V]

/-- What the service keeps between callbacks. -/
structure Inv (s : Service V) : Prop where
  nodup : s.list.Nodup
  lt_fresh : ∀ d ∈ s.list, d < s.fresh
  slot_mem : ∀ t d, s.slot t = some d → d ∈ s.list
  slot_inj : ∀ t t' d, s.slot t = some d → s.slot t' = some d → t = t'
  slot_live : ∀ t d, s.slot t = some d → (s.db d).retired = false
  reachable : ∀ d ∈ s.list, AggregateDB.Reachable (s.db d)
  running : ∀ d ∈ s.list, (s.db d).stopped = false

theorem inv_init (invId : UInt64) (names : List String) : (init invId names : Service V).Inv :=
  ⟨.nil, (fun _ h => nomatch h), (fun _ _ h => nomatch h), (fun _ _ _ h => nomatch h),
    (fun _ _ h => nomatch h), (fun _ h => nomatch h), fun _ h => nomatch h⟩

/-- The invariant reads only the slots, the databases, the list and the next id. -/
theorem Inv.congr {s' : Service V} (h : s.Inv) (hslot : s'.slot = s.slot) (hdb : s'.db = s.db)
    (hl : s'.list = s.list) (hf : s'.fresh = s.fresh) : s'.Inv := by
  obtain ⟨slot, db, list, fresh, g, k⟩ := s'
  dsimp only at hslot hdb hl hf
  subst hslot hdb hl hf
  exact ⟨h.1, h.2, h.3, h.4, h.5, h.6, h.7⟩

/-- Writing a database that is reachable and running when it is on the list, with its
`m_retired`, keeps the invariant. -/
theorem Inv.setDb (h : s.Inv) {d : Nat} {db : AggregateDB V}
    (hd : d ∈ s.list → AggregateDB.Reachable db ∧ db.stopped = false)
    (hret : db.retired = (s.db d).retired) : { s with db := Function.update s.db d db }.Inv where
  nodup := h.nodup
  lt_fresh := h.lt_fresh
  slot_mem := h.slot_mem
  slot_inj := h.slot_inj
  slot_live t x hx := by
    dsimp only
    rw [Function.update_apply]
    split_ifs with hxd
    · rw [hret, ← hxd]
      exact h.slot_live t x hx
    · exact h.slot_live t x hx
  reachable x hx := by
    dsimp only
    rw [Function.update_apply]
    split_ifs with hxd
    · exact (hd (hxd ▸ hx)).1
    · exact h.reachable x hx
  running x hx := by
    dsimp only
    rw [Function.update_apply]
    split_ifs with hxd
    · exact (hd (hxd ▸ hx)).2
    · exact h.running x hx

/-- A thread that takes a new database, reachable, running and not retired, keeps the invariant:
the new id is on no slot and not on the list. -/
theorem Inv.adopt (h : s.Inv) (t : Nat) {db : AggregateDB V}
    (hr : AggregateDB.Reachable db) (hs : db.stopped = false) (hret : db.retired = false) :
    (s.adopt t db).Inv := by
  have hfresh : ∀ t' d, s.slot t' = some d → d ≠ s.fresh := fun t' d h' hd =>
    Nat.lt_irrefl _ (hd ▸ h.lt_fresh d (h.slot_mem t' d h'))
  refine ⟨List.nodup_cons.mpr ⟨fun hm => Nat.lt_irrefl _ (h.lt_fresh _ hm), h.nodup⟩,
    fun d hd => ?_, fun t' d hd => ?_, fun t₁ t₂ d h₁ h₂ => ?_, fun t' d hd => ?_,
    fun d hd => ?_, fun d hd => ?_⟩
  · rcases List.mem_cons.mp hd with rfl | hd
    · exact Nat.lt_succ_self _
    · exact Nat.lt_succ_of_lt (h.lt_fresh d hd)
  · simp only [Service.adopt, Function.update_apply] at hd ⊢
    split_ifs at hd with htt
    · exact (Option.some.inj hd) ▸ List.mem_cons_self _ _
    · exact List.mem_cons_of_mem _ (h.slot_mem t' d hd)
  · simp only [Service.adopt, Function.update_apply] at h₁ h₂
    split_ifs at h₁ h₂ with ht₁ ht₂ ht₂
    · rw [ht₁, ht₂]
    · exact absurd (Option.some.inj h₁) (hfresh t₂ d h₂).symm
    · exact absurd (Option.some.inj h₂) (hfresh t₁ d h₁).symm
    · exact h.slot_inj t₁ t₂ d h₁ h₂
  · simp only [Service.adopt, Function.update_apply] at hd ⊢
    split_ifs at hd with htt
    · rw [if_pos (Option.some.inj hd).symm]
      exact hret
    · rw [if_neg (hfresh t' d hd)]
      exact h.slot_live t' d hd
  · simp only [Service.adopt, Function.update_apply]
    split_ifs with hdf
    · exact hr
    · exact h.reachable d ((List.mem_cons.mp hd).resolve_left hdf)
  · simp only [Service.adopt, Function.update_apply]
    split_ifs with hdf
    · exact hs
    · exact h.running d ((List.mem_cons.mp hd).resolve_left hdf)

theorem Inv.threadExit (h : s.Inv) (t : Nat) : (s.threadExit t).Inv := by
  unfold Service.threadExit
  split
  · next d hd =>
    -- the other slots are as they were, and none of them holds `d`
    have hother : ∀ t' x, Function.update s.slot t none t' = some x → s.slot t' = some x ∧ x ≠ d :=
      fun t' x hx => by
        by_cases htt : t' = t
        · subst htt
          simp at hx
        · rw [Function.update_noteq htt] at hx
          exact ⟨hx, fun hxd => htt (h.slot_inj t' t d (hxd ▸ hx) hd)⟩
    refine ⟨h.nodup, h.lt_fresh, fun t' x hx => h.slot_mem t' x (hother t' x hx).1,
      fun t₁ t₂ x h₁ h₂ => h.slot_inj t₁ t₂ x (hother t₁ x h₁).1 (hother t₂ x h₂).1,
      fun t' x hx => ?_, fun x hx => ?_, fun x hx => ?_⟩
    · show (Function.update s.db d _ x).retired = false
      rw [Function.update_noteq (hother t' x hx).2]
      exact h.slot_live t' x (hother t' x hx).1
    · show AggregateDB.Reachable (Function.update s.db d _ x)
      rw [Function.update_apply]
      split_ifs with hxd
      · exact .retire (hxd ▸ h.reachable x hx)
      · exact h.reachable x hx
    · show (Function.update s.db d _ x).stopped = false
      rw [Function.update_apply]
      split_ifs with hxd
      · exact hxd ▸ h.running x hx
      · exact h.running x hx
  · exact h

theorem Inv.processSnapshotCb (h : s.Inv) (base : Config) (t : Nat) (c : Host)
    (snap : SnapshotRecord V) {fresh : AggregateDB V} (hr : AggregateDB.Reachable fresh)
    (hs : fresh.stopped = false) (hret : fresh.retired = false) :
    (s.processSnapshotCb base t c snap fresh).Inv := by
  unfold Service.processSnapshotCb CaliperAggregate.processSnapshotCb acquire
  cases ht : s.slot t with
  | some d =>
    have hd := h.slot_mem t d ht
    have hk := AggregateDB.processSnapshot_keepsFlags (s.config base) c snap (s.db d)
    simp only [Option.map_some', h.running d hd, Bool.false_eq_true, if_false, store, ht]
    exact (h.setDb (fun _ => ⟨.processSnapshot _ _ _ (h.reachable d hd), hk.1.trans (h.running d hd)⟩)
      hk.2).congr rfl rfl rfl rfl
  | none =>
    have hk := AggregateDB.processSnapshot_keepsFlags (s.config base) c snap fresh
    cases c.isSignal <;> simp only [Option.map_none', Bool.not_false, Bool.not_true, if_true,
      if_false, hs, Bool.false_eq_true, store]
    · exact (h.adopt t (.processSnapshot _ _ _ hr) (hk.1.trans hs) (hk.2.trans hret)).congr rfl rfl
        rfl rfl
    · exact h.congr rfl rfl rfl rfl

theorem Inv.postInitCb (h : s.Inv) (t : Nat) (lookup : String → Option UInt64)
    {fresh : AggregateDB V} (hr : AggregateDB.Reachable fresh) (hs : fresh.stopped = false)
    (hret : fresh.retired = false) : (s.postInitCb t lookup fresh).Inv := by
  unfold Service.postInitCb acquire
  cases ht : s.slot t with
  | some d =>
    have hd := h.slot_mem t d ht
    simp only [Option.map_some', store, ht, Bool.false_eq_true, if_false]
    exact (h.setDb (fun _ => ⟨h.reachable d hd, h.running d hd⟩) rfl).congr rfl rfl rfl rfl
  | none =>
    simp only [Option.map_none', if_true, store]
    exact (h.adopt t hr hs hret).congr rfl rfl rfl rfl

section Flush

variable (base : Config) (beyond : Nat → UInt8)

theorem Inv.flushCb (h : s.Inv) : (s.flushCb base beyond).1.Inv := by
  obtain ⟨hslot, hfresh, -, hdb, hlist, -⟩ := flushCb_eq base beyond h.nodup
  have hmem : ∀ x, x ∈ (s.flushCb base beyond).1.list ↔ x ∈ s.list ∧ (s.db x).retired = false :=
    fun x => by simp [hlist]
  refine ⟨hlist ▸ h.nodup.filter _, fun x hx => hfresh ▸ h.lt_fresh x ((hmem x).mp hx).1,
    fun t x hx => (hmem x).mpr ⟨h.slot_mem t x (hslot ▸ hx), h.slot_live t x (hslot ▸ hx)⟩,
    fun t₁ t₂ x h₁ h₂ => h.slot_inj t₁ t₂ x (hslot ▸ h₁) (hslot ▸ h₂), fun t x hx => ?_,
    fun x hx => ?_, fun x hx => ?_⟩
  · rw [hdb, if_pos (h.slot_mem t x (hslot ▸ hx))]
    exact h.slot_live t x (hslot ▸ hx)
  · rw [hdb, if_pos ((hmem x).mp hx).1]
    exact .setStopped false (.clear (h.reachable x ((hmem x).mp hx).1))
  · rw [hdb, if_pos ((hmem x).mp hx).1]

end Flush

theorem Inv.step (h : s.Inv) (base : Config) : ∀ e : ServiceEvent V, (s.step base e).Inv
  | .processSnapshot t c snap aggr _ _ => h.processSnapshotCb base t c snap (.new aggr _ _) rfl rfl
  | .postInit t lookup aggr _ _ => h.postInitCb t lookup (.new aggr _ _) rfl rfl
  | .createAttribute _ _ => h.congr rfl rfl rfl rfl
  | .flush beyond => h.flushCb base beyond
  | .threadExit t => h.threadExit t

theorem Inv.run (base : Config) : ∀ (evs : List (ServiceEvent V)) {s : Service V}, s.Inv →
    (s.run base evs).Inv
  | [], _, h => h
  | e :: evs, _, h => Inv.run base evs (h.step base e)

/-- After any callbacks from `init_static_data` on: `s_list` holds each database once; the
database a thread's slot holds is on the list, not retired, and no other thread's; and each
database on the list is a state a database reaches, with `m_stopped` clear. -/
theorem run_safe (base : Config) (invId : UInt64) (names : List String)
    (evs : List (ServiceEvent V)) :
    ((init invId names : Service V).run base evs).list.Nodup ∧
      (∀ t d, ((init invId names : Service V).run base evs).slot t = some d →
        d ∈ ((init invId names : Service V).run base evs).list ∧
          (((init invId names : Service V).run base evs).db d).retired = false ∧
          ∀ t', ((init invId names : Service V).run base evs).slot t' = some d → t' = t) ∧
      ∀ d ∈ ((init invId names : Service V).run base evs).list,
        AggregateDB.Reachable (((init invId names : Service V).run base evs).db d) ∧
          (((init invId names : Service V).run base evs).db d).stopped = false := by
  have h := Inv.run base evs (inv_init (V := V) invId names)
  exact ⟨h.nodup, fun t d hd => ⟨h.slot_mem t d hd, h.slot_live t d hd,
    fun t' ht' => h.slot_inj t' t d ht' hd⟩, fun d hd => ⟨h.reachable d hd, h.running d hd⟩⟩

/-- After any callbacks from `init_static_data` on, `flush_cb` writes the snapshots of each
database on `s_list` in turn, adds their `m_num_dropped` to `s_global_num_dropped`, unlinks exactly
the retired ones, and leaves each of the others as `clear()` leaves it, with `m_stopped` clear. -/
theorem flushCb_spec (base : Config) (invId : UInt64) (names : List String)
    (evs : List (ServiceEvent V)) (beyond : Nat → UInt8) :
    let s := (init invId names : Service V).run base evs
    (s.flushCb base beyond).2 =
        s.list.flatMap (fun d => (s.db d).flushedSnapshots (s.config base) beyond) ∧
      (s.flushCb base beyond).1.globalDropped =
        s.globalDropped + (s.list.map fun d => (s.db d).numDropped).sum ∧
      (s.flushCb base beyond).1.list = s.list.filter (fun d => (s.db d).retired = false) ∧
      ∀ d ∈ (s.flushCb base beyond).1.list,
        (s.flushCb base beyond).1.db d = { (s.db d).clear with stopped := false } := by
  intro s
  have h : s.Inv := Inv.run base evs (inv_init invId names)
  obtain ⟨-, -, -, hdb, hlist, hout, hdrop⟩ := flushCb_eq base beyond h.nodup
  refine ⟨hout, hdrop, hlist, fun d hd => ?_⟩
  rw [hdb, if_pos (List.mem_filter.mp (hlist ▸ hd)).1]

end Service

end CaliperAggregate
