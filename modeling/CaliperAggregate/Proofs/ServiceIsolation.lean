import CaliperAggregate.Proofs.ServiceSafety
import CaliperAggregate.Proofs.KeyAttributeIds

/-!
# Each thread's database sees only its own thread

A thread's database is changed only by its own callbacks, by `flush_cb`, and through the key
attributes, by `post_init_cb` and `create_attribute_cb`: whatever other threads do in between,
the database a thread's slot holds is the one it would hold in the run of only those callbacks
(`run_isolated`). A callback of the thread gives its database as `processSnapshotCb` on the slot
alone does (`dbOf_processSnapshotCb`); a callback of another thread writes another database,
since no two threads share one and a new one takes a fresh id (`dbOf_store_other`).

What every thread's ingestion reads of the key attributes is changed by the key attribute
callbacks alone: their ids after any run are, for distinct names, the id each name last took from
them (`run_keyAttributeIds`).
-/

namespace CaliperAggregate

/-- The callbacks that can touch thread `t`'s database: its own, the key attribute callbacks,
and `flush_cb`. -/
def ServiceEvent.Concerns {V : Type} (t : Nat) : ServiceEvent V → Bool
  | .processSnapshot t' .. | .threadExit t' => t' = t
  | .postInit .. | .createAttribute .. | .flush .. => true

/-- The key attribute callback a callback of the service runs, if any. -/
def ServiceEvent.keyEvent {V : Type} : ServiceEvent V → Option KeyEvent
  | .postInit _ lookup _ _ _ => some (.postInit lookup)
  | .createAttribute name id => some (.createAttribute name id)
  | .processSnapshot .. | .flush _ | .threadExit _ => none

namespace Service

variable {V : Type} {s : Service V}

/-- `pthread_getspecific(s_aggregate_db_key)` on thread `t`: the database its slot holds. -/
def dbOf (s : Service V) (t : Nat) : Option (AggregateDB V) := (s.slot t).map s.db

/-- A thread's `post_init_cb` leaves its slot holding the database `acquire(c, true)` returns. -/
theorem dbOf_postInitCb (t : Nat) (lookup : String → Option UInt64) (fresh : AggregateDB V) :
    (s.postInitCb t lookup fresh).dbOf t = (acquire (s.dbOf t) true fresh).1 := by
  unfold Service.postInitCb acquire dbOf
  cases hst : s.slot t <;> simp [store, hst, adopt]

theorem dbOf_threadExit (t : Nat) : (s.threadExit t).dbOf t = none := by
  unfold Service.threadExit dbOf
  split <;> simp_all

theorem store_keys (t : Nat) (constructed : Bool) (o : Option (AggregateDB V)) :
    (s.store t constructed o).keys = s.keys := by
  cases o
  · rfl
  · cases constructed
    · simp only [store, Bool.false_eq_true, if_false]
      split <;> rfl
    · rfl

theorem threadExit_keys (t : Nat) : (s.threadExit t).keys = s.keys := by
  unfold Service.threadExit
  split <;> rfl

variable [DoubleOps V] [Zero V] [Add V]

/-- A thread's `process_snapshot_cb` leaves its slot holding the database `processSnapshotCb`
returns for the slot's. -/
theorem dbOf_processSnapshotCb (base : Config) (t : Nat) (c : Host) (snap : SnapshotRecord V)
    (fresh : AggregateDB V) :
    (s.processSnapshotCb base t c snap fresh).dbOf t =
      (CaliperAggregate.processSnapshotCb (s.config base) c fresh (s.dbOf t) s.globalDropped
        snap).slot := by
  unfold Service.processSnapshotCb CaliperAggregate.processSnapshotCb acquire dbOf
  cases hst : s.slot t with
  | some d => by_cases hs : (s.db d).stopped <;> simp [store, hst, hs]
  | none => cases c.isSignal <;> by_cases hf : fresh.stopped <;> simp [store, hst, hf, adopt]

/-- What a callback returns as the thread's database does not read `s_global_num_dropped`. -/
theorem processSnapshotCb_slot_congr (cfg : Config) (c : Host) (fresh : AggregateDB V)
    (slot : Option (AggregateDB V)) (g g' : Nat) (snap : SnapshotRecord V) :
    (CaliperAggregate.processSnapshotCb cfg c fresh slot g snap).slot =
      (CaliperAggregate.processSnapshotCb cfg c fresh slot g' snap).slot := by
  unfold CaliperAggregate.processSnapshotCb
  dsimp only
  split <;> (try split) <;> rfl

/-- A callback of another thread leaves thread `t`'s database as it was: no two threads share a
database, and a new one takes an id no slot holds. -/
theorem dbOf_store_other (h : s.Inv) {u t : Nat} (hut : u ≠ t) (constructed : Bool) :
    ∀ o : Option (AggregateDB V), (s.store u constructed o).dbOf t = s.dbOf t
  | none => rfl
  | some db => by
    cases constructed
    · simp only [store, Bool.false_eq_true, if_false]
      cases hu : s.slot u with
      | none => rfl
      | some d' =>
        show (s.slot t).map (Function.update s.db d' db) = (s.slot t).map s.db
        cases hst : s.slot t with
        | none => rfl
        | some d =>
          have hne : d ≠ d' := fun hdd => hut (h.slot_inj u t d (hdd ▸ hu) hst)
          simp [Function.update_noteq hne]
    · show (Function.update s.slot u (some s.fresh) t).map (Function.update s.db s.fresh db) =
        (s.slot t).map s.db
      rw [Function.update_noteq hut.symm]
      cases hst : s.slot t with
      | none => rfl
      | some d =>
        have hdf : d ≠ s.fresh := Nat.ne_of_lt (h.lt_fresh d (h.slot_mem t d hst))
        simp [Function.update_noteq hdf]

theorem dbOf_threadExit_other (h : s.Inv) {u t : Nat} (hut : u ≠ t) :
    (s.threadExit u).dbOf t = s.dbOf t := by
  unfold Service.threadExit dbOf
  split
  · next d' hu =>
    cases hst : s.slot t with
    | none => simp [Function.update_noteq hut.symm, hst]
    | some d =>
      have hne : d ≠ d' := fun hdd => hut (h.slot_inj u t d (hdd ▸ hu) hst)
      simp [Function.update_noteq hut.symm, hst, Function.update_noteq hne]
  · rfl

/-- `flush_cb` leaves each thread's database cleared, with `m_stopped` clear. -/
theorem dbOf_flushCb (h : s.Inv) (base : Config) (beyond : Nat → UInt8) (t : Nat) :
    (s.flushCb base beyond).1.dbOf t = (s.dbOf t).map fun db => { db.clear with stopped := false } := by
  obtain ⟨hslot, -, -, hdb, -⟩ := flushCb_eq base beyond h.nodup
  unfold dbOf
  rw [hslot]
  cases hst : s.slot t with
  | none => rfl
  | some d => simp [hdb, h.slot_mem t d hst]

theorem dbOf_processSnapshotCb_other (h : s.Inv) {u t : Nat} (hut : u ≠ t) (base : Config)
    (c : Host) (snap : SnapshotRecord V) (fresh : AggregateDB V) :
    (s.processSnapshotCb base u c snap fresh).dbOf t = s.dbOf t :=
  dbOf_store_other h hut _ _

theorem dbOf_postInitCb_other (h : s.Inv) {u t : Nat} (hut : u ≠ t)
    (lookup : String → Option UInt64) (fresh : AggregateDB V) :
    (s.postInitCb u lookup fresh).dbOf t = s.dbOf t :=
  dbOf_store_other h hut _ _

/-- Two states of the service that agree on thread `t`'s database and on the key attributes. -/
structure Agree (t : Nat) (s s' : Service V) : Prop where
  inv : s.Inv
  inv' : s'.Inv
  db : s.dbOf t = s'.dbOf t
  keys : s.keys = s'.keys

variable {t : Nat} {s' : Service V} (base : Config)

/-- A callback that does not concern thread `t`, taken on one side, keeps the agreement. -/
theorem Agree.step_other (h : Agree t s s') :
    ∀ e : ServiceEvent V, e.Concerns t = false → Agree t (s.step base e) s'
  | .processSnapshot u c snap _ _ _, he => ⟨h.inv.step base _, h.inv',
      (dbOf_processSnapshotCb_other h.inv (by simpa [ServiceEvent.Concerns] using he) _ _ _ _).trans
        h.db, (store_keys _ _ _).trans h.keys⟩
  | .threadExit u, he => ⟨h.inv.step base _, h.inv',
      (dbOf_threadExit_other h.inv (by simpa [ServiceEvent.Concerns] using he)).trans h.db,
      (threadExit_keys u).trans h.keys⟩

/-- A callback that concerns thread `t`, taken on both sides, keeps the agreement. -/
theorem Agree.step_concerns (h : Agree t s s') :
    ∀ e : ServiceEvent V, e.Concerns t = true → Agree t (s.step base e) (s'.step base e)
  | .processSnapshot u c snap aggr _ _, he => by
    obtain rfl : u = t := by simpa [ServiceEvent.Concerns] using he
    refine ⟨h.inv.step base _, h.inv'.step base _, ?_,
      (store_keys _ _ _).trans (h.keys.trans (store_keys _ _ _).symm)⟩
    simp only [step]
    rw [dbOf_processSnapshotCb, dbOf_processSnapshotCb, h.db, config, config, h.keys]
    exact processSnapshotCb_slot_congr _ _ _ _ _ _ _
  | .threadExit u, he => by
    obtain rfl : u = t := by simpa [ServiceEvent.Concerns] using he
    exact ⟨h.inv.step base _, h.inv'.step base _,
      (dbOf_threadExit u).trans (dbOf_threadExit u).symm,
      (threadExit_keys u).trans (h.keys.trans (threadExit_keys u).symm)⟩
  | .postInit u lookup _ _ _, _ => by
    refine ⟨h.inv.step base _, h.inv'.step base _, ?_, by simp only [step, postInitCb, h.keys]⟩
    simp only [step]
    by_cases hut : u = t
    · subst hut
      rw [dbOf_postInitCb, dbOf_postInitCb, h.db]
    · rw [dbOf_postInitCb_other h.inv hut, dbOf_postInitCb_other h.inv' hut, h.db]
  | .createAttribute _ _, _ =>
    ⟨h.inv.step base _, h.inv'.step base _, h.db, by simp only [step, createAttributeCb, h.keys]⟩
  | .flush beyond, _ => by
    refine ⟨h.inv.step base _, h.inv'.step base _, ?_, ?_⟩
    · simp only [step]
      rw [dbOf_flushCb h.inv, dbOf_flushCb h.inv', h.db]
    · simp only [step]
      rw [(flushCb_eq base beyond h.inv.nodup).2.2.1, (flushCb_eq base beyond h.inv'.nodup).2.2.1,
        h.keys]

theorem Agree.run : ∀ (evs : List (ServiceEvent V)) {s s' : Service V}, Agree t s s' →
    Agree t (s.run base evs) (s'.run base (evs.filter (ServiceEvent.Concerns t)))
  | [], _, _, h => h
  | e :: evs, _, _, h => by
    cases he : e.Concerns t
    · rw [List.filter_cons_of_neg (by simp [he])]
      exact Agree.run evs (h.step_other base e he)
    · rw [List.filter_cons_of_pos he]
      exact Agree.run evs (h.step_concerns base e he)

/-- Whatever other threads do, thread `t`'s database after any callbacks from `init_static_data`
on is the one it holds after only its own callbacks, the key attribute callbacks and the
flushes, in the same order. -/
theorem run_isolated (invId : UInt64) (names : List String) (evs : List (ServiceEvent V))
    (t : Nat) :
    ((init invId names : Service V).run base evs).dbOf t =
      ((init invId names : Service V).run base (evs.filter (ServiceEvent.Concerns t))).dbOf t :=
  (Agree.run base evs ⟨inv_init invId names, inv_init invId names, rfl, rfl⟩).db

section Keys

/-- Only `post_init_cb` and `create_attribute_cb` change the key attributes. -/
theorem run_keys : ∀ (evs : List (ServiceEvent V)) (s : Service V),
    (s.run base evs).keys = s.keys.run (evs.filterMap ServiceEvent.keyEvent)
  | [], _ => rfl
  | e :: evs, s => by
    have hkeys : (s.step base e).keys = ((e.keyEvent).map s.keys.step).getD s.keys := by
      cases e with
      | processSnapshot => exact store_keys _ _ _
      | postInit => rfl
      | createAttribute => rfl
      | flush beyond => exact (foldl_flushTurn_frame base beyond s.list (s, [])).2.2
      | threadExit t => exact threadExit_keys t
    rw [run, List.foldl_cons, ← run, run_keys evs, hkeys]
    cases hk : e.keyEvent <;> simp [List.filterMap_cons, hk, KeyAttributes.run]

/-- After any callbacks from `init_static_data` on, on distinct key attribute names, the key
attribute ids that `process_snapshot` reads are, name by name, the id the latest key attribute
callback gave it, or `CALI_INV_ID`. -/
theorem run_keyAttributeIds (invId : UInt64) {names : List String} (hnd : names.Nodup)
    (evs : List (ServiceEvent V)) :
    (((init invId names : Service V).run base evs).config base).keyAttributeIds =
      names.map ((evs.filterMap ServiceEvent.keyEvent).foldl KeyEvent.apply fun _ => invId) := by
  rw [config, run_keys]
  exact (KeyAttributes.run_ids hnd _ (g := fun _ => invId) rfl
    (by rw [init, KeyAttributes.init, List.map_const'])).2

/-- Attribute b created, then an ingest on thread 1 and a flush. -/
theorem run_keyAttributeIds_two_names :
    ["a", "b"].Nodup ∧
      (((init 0 ["a", "b"] : Service Float).run ⟨0, [], [], 4⟩
          [.createAttribute "b" 5, .processSnapshot 1 ⟨false, fun _ => none⟩ ⟨[], []⟩ [7] 0 0,
            .flush fun _ => 0]).config ⟨0, [], [], 4⟩).keyAttributeIds =
        ["a", "b"].map (([.createAttribute "b" 5,
          .processSnapshot 1 ⟨false, fun _ => none⟩ ⟨[], []⟩ [7] 0 0, .flush fun _ => 0] :
            List (ServiceEvent Float)).filterMap ServiceEvent.keyEvent |>.foldl KeyEvent.apply
              fun _ => 0) :=
  ⟨by decide, run_keyAttributeIds _ 0 (by decide) _⟩

end Keys

end Service

end CaliperAggregate
