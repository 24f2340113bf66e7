import CaliperAggregate.Proofs.ServiceAccounting
import Mathlib.Data.List.MinMax

/-!
# The longest key `finish_cb` reports

`process_snapshot` raises its database's `m_max_keylen` to the length of each key it builds, and
`flush_cb` folds every database's `m_max_keylen` into `s_global_max_keylen` before `clear()`
resets it. So the key lengths the service keeps, in `s_global_max_keylen` and in the databases on
`s_list`, have the same upper bounds as the keys built so far (`keysWithin_run`): a database
leaves `s_list` only at a flush, after its counters were folded in. After a final flush no
database keeps a length, and the max key len `finish_cb` reports is the longest key built
(`run_flush_maxKeylen`).

Upper bounds are what each step is about: a maximum is fixed by them (`eq_of_forall_ge_iff`),
and they pass through updates of single databases without any arithmetic on the lists.
-/

namespace CaliperAggregate

namespace AggregateDB

variable {V : Type}

theorem walk_maxKeylen (alloc : Bool) :
    ∀ (key : List UInt8) (db : AggregateDB V) (o : Option Nat),
      (walk alloc db o key).2.maxKeylen = db.maxKeylen
  | [], _, none | _ :: _, _, none | [], _, some _ => rfl
  | b :: bs, db, some e => by
    rw [walk, walk_maxKeylen alloc bs]
    unfold walkStep
    split_ifs <;> rfl

variable [DoubleOps V] [Zero V]

theorem findEntry_maxKeylen (db : AggregateDB V) (key : List UInt8) (alloc : Bool) :
    (db.findEntry key alloc).2.maxKeylen = db.maxKeylen := by
  have hw := walk_maxKeylen alloc key { db with trie := (db.trie.get TrieNode.init 0 alloc).2 }
    (db.trie.get TrieNode.init 0 alloc).1
  unfold findEntry allocKernels
  dsimp only
  split
  · exact hw
  · split_ifs <;> exact hw

variable [Add V]

/-- Line 490: a snapshot that is not empty raises `m_max_keylen` to the length of its key. -/
theorem processSnapshot_maxKeylen (cfg : Config) (c : Host) (snap : SnapshotRecord V)
    (db : AggregateDB V) :
    (db.processSnapshot cfg c snap).maxKeylen =
      if IsEmpty snap then db.maxKeylen else max (buildKey cfg c snap).key.length db.maxKeylen := by
  unfold processSnapshot
  split_ifs
  · rfl
  have hf := findEntry_maxKeylen
    { db with maxKeylen := max (buildKey cfg c snap).key.length db.maxKeylen }
    (buildKey cfg c snap).key (!c.isSignal)
  dsimp only
  split
  · exact hf
  · rw [updateKernels_frame]
    exact hf

end AggregateDB

theorem foldr_max_le_iff {l : List Nat} {n : Nat} : l.foldr max 0 ≤ n ↔ ∀ x ∈ l, x ≤ n :=
  ⟨fun h _ hx => (List.le_max_of_le hx le_rfl).trans h, List.max_le_of_forall_le l n⟩

theorem Statistics.foldl_maxKeylen_le {V : Type} (f : Nat → AggregateDB V) (n : Nat) :
    ∀ (l : List Nat) (st : Statistics),
      (l.foldl (fun st x => st.fold (f x)) st).maxKeylen ≤ n ↔
        st.maxKeylen ≤ n ∧ ∀ x ∈ l, (f x).maxKeylen ≤ n
  | [], _ => by simp
  | d :: l, st => by
    rw [List.foldl_cons, Statistics.foldl_maxKeylen_le f n l, List.forall_mem_cons, ← and_assoc]
    exact and_congr_left' max_le_iff

namespace Service

variable {V : Type} [DoubleOps V] [Zero V] {s : Service V}

section Flush

variable (base : Config) (beyond : Nat → UInt8)

/-- `flush_cb` folds the counters of the databases on the list, in order, into the
statistics. -/
theorem foldl_flushTurn_stats : ∀ (l : List Nat), l.Nodup →
    ∀ (r : Service V × List (FlushedSnapshot V)),
      (l.foldl (flushTurn base beyond) r).1.stats =
        l.foldl (fun st x => st.fold (r.1.db x)) r.1.stats
  | [], _, _ => rfl
  | d :: l, hl, r => by
    obtain ⟨hd, hl⟩ := List.nodup_cons.mp hl
    -- the turn on `d` leaves the other databases as they were
    have hsame : ∀ x ∈ l, (flushTurn base beyond r d).1.db x = r.1.db x := fun x hx => by
      rw [flushTurn_eq]
      exact Function.update_noteq (fun h : x = d => hd (h ▸ hx)) _ _
    rw [List.foldl_cons, List.foldl_cons, foldl_flushTurn_stats l hl,
      List.foldl_ext _ _ _ fun st x hx => by rw [hsame x hx], flushTurn_eq]

end Flush

variable [Add V]

/-- Reference definition, from the specification: the length of the key `process_snapshot` builds
for the callback's snapshot, when the snapshot reaches a database and is not empty. -/
def builtKey (base : Config) (s : Service V) : ServiceEvent V → List Nat
  | .processSnapshot t c snap .. =>
    if ¬ AggregateDB.IsEmpty snap ∧ (s.slot t ≠ none ∨ c.isSignal = false) then
      [(buildKey (s.config base) c snap).key.length]
    else []
  | .postInit .. | .createAttribute .. | .flush _ | .threadExit _ => []

/-- Reference definition, from the specification: the lengths of the keys `process_snapshot` builds
over the callbacks `evs`, in order. -/
def builtKeys (base : Config) : Service V → List (ServiceEvent V) → List Nat
  | _, [] => []
  | s, e :: evs => s.builtKey base e ++ builtKeys base (s.step base e) evs

/-- Every key length the service keeps, in `s_global_max_keylen` or in the `m_max_keylen` of a
database on `s_list`, is at most `n`. -/
def KeysWithin (s : Service V) (n : Nat) : Prop :=
  s.stats.maxKeylen ≤ n ∧ ∀ d ∈ s.list, (s.db d).maxKeylen ≤ n

variable {n : Nat}

omit [DoubleOps V] [Zero V] [Add V] in
/-- A database on the list replaced: the bounds change as its `m_max_keylen` does. -/
theorem keysWithin_update {d : Nat} (hd : d ∈ s.list) (db : AggregateDB V) {P : Prop}
    (h : db.maxKeylen ≤ n ↔ (s.db d).maxKeylen ≤ n ∧ P) :
    ({ s with db := Function.update s.db d db } : Service V).KeysWithin n ↔
      s.KeysWithin n ∧ P := by
  simp only [KeysWithin, Function.update_apply]
  constructor
  · rintro ⟨hs, hl⟩
    have hP := h.mp (by simpa using hl d hd)
    refine ⟨⟨hs, fun x hx => ?_⟩, hP.2⟩
    by_cases hxd : x = d
    · exact hxd ▸ hP.1
    · simpa [hxd] using hl x hx
  · rintro ⟨⟨hs, hl⟩, hP⟩
    refine ⟨hs, fun x hx => ?_⟩
    split_ifs with hxd
    · exact h.mpr ⟨hxd ▸ hl x hx, hP⟩
    · exact hl x hx

/-- A new database spliced in adds its `m_max_keylen`. -/
theorem keysWithin_adopt (h : s.Inv) (t : Nat) (db : AggregateDB V) :
    (s.adopt t db).KeysWithin n ↔ s.KeysWithin n ∧ db.maxKeylen ≤ n := by
  have hsame : ∀ x ∈ s.list, Function.update s.db s.fresh db x = s.db x := fun x hx =>
    Function.update_noteq (Nat.ne_of_lt (h.lt_fresh x hx)) _ _
  simp only [KeysWithin, Service.adopt, List.forall_mem_cons, Function.update_same]
  rw [forall₂_congr fun x hx => by rw [hsame x hx]]
  tauto

theorem keysWithin_processSnapshotCb (h : s.Inv) (base : Config) (t : Nat) (c : Host)
    (snap : SnapshotRecord V) (aggr : List UInt64) (tb kb : Nat) :
    (s.processSnapshotCb base t c snap (.new aggr tb kb)).KeysWithin n ↔ s.KeysWithin n ∧
      ∀ L ∈ s.builtKey base (.processSnapshot t c snap aggr tb kb), L ≤ n := by
  rw [processSnapshotCb_eq h base t c snap rfl, builtKey]
  cases ht : s.slot t with
  | some d =>
    -- the thread's database builds the key
    refine keysWithin_update (h.slot_mem t d ht) _ ?_
    rw [AggregateDB.processSnapshot_maxKeylen]
    by_cases he : AggregateDB.IsEmpty snap <;> simp [he, and_comm]
  | none =>
    cases c.isSignal
    · -- a new database builds the key
      dsimp only
      rw [if_neg Bool.false_ne_true, keysWithin_adopt h, AggregateDB.processSnapshot_maxKeylen]
      by_cases he : AggregateDB.IsEmpty snap <;> simp [he, AggregateDB.new]
    · -- the snapshot is dropped before any key is built
      exact (and_iff_left (by simp)).symm

theorem keysWithin_postInitCb (h : s.Inv) (t : Nat) (lookup : String → Option UInt64)
    (fresh : AggregateDB V) (hf : fresh.maxKeylen = 0) :
    (s.postInitCb t lookup fresh).KeysWithin n ↔ s.KeysWithin n := by
  rw [postInitCb_eq]
  cases s.slot t with
  | some _ => rfl
  | none => exact (keysWithin_adopt h t fresh).trans (and_iff_left (hf ▸ n.zero_le))

theorem keysWithin_threadExit (h : s.Inv) (t : Nat) :
    (s.threadExit t).KeysWithin n ↔ s.KeysWithin n := by
  unfold Service.threadExit
  cases ht : s.slot t with
  | none => rfl
  | some d =>
    exact (keysWithin_update (h.slot_mem t d ht) { s.db d with retired := true }
      (and_iff_left trivial).symm).trans (and_iff_left trivial)

/-- `flush_cb` folds the `m_max_keylen` of the databases on the list into `s_global_max_keylen`. -/
theorem maxKeylen_flushCb_le (h : s.Inv) (base : Config) (beyond : Nat → UInt8) :
    (s.flushCb base beyond).1.stats.maxKeylen ≤ n ↔ s.KeysWithin n := by
  rw [flushCb, foldl_flushTurn_stats base beyond s.list h.nodup, Statistics.foldl_maxKeylen_le]
  exact Iff.rfl

/-- The databases `flush_cb` keeps have no `m_max_keylen` left. -/
theorem keysWithin_flushCb (h : s.Inv) (base : Config) (beyond : Nat → UInt8) :
    (s.flushCb base beyond).1.KeysWithin n ↔ (s.flushCb base beyond).1.stats.maxKeylen ≤ n :=
  and_iff_left fun x hx => by
    rw [(flushCb_db_of_mem h base beyond x hx).2]
    exact n.zero_le

theorem keysWithin_step (h : s.Inv) (base : Config) (e : ServiceEvent V) :
    (s.step base e).KeysWithin n ↔ s.KeysWithin n ∧ ∀ L ∈ s.builtKey base e, L ≤ n := by
  cases e with
  | processSnapshot t c snap aggr tb kb =>
    exact keysWithin_processSnapshotCb h base t c snap aggr tb kb
  | postInit t lookup aggr tb kb =>
    exact (keysWithin_postInitCb h t lookup _ rfl).trans (and_iff_left fun _ h => nomatch h).symm
  | createAttribute => exact (and_iff_left fun _ h => nomatch h).symm
  | flush beyond =>
    exact (keysWithin_flushCb h base beyond).trans
      ((maxKeylen_flushCb_le h base beyond).trans (and_iff_left fun _ h => nomatch h).symm)
  | threadExit t =>
    exact (keysWithin_threadExit h t).trans (and_iff_left fun _ h => nomatch h).symm

/-- Over any callbacks, the lengths the service keeps have exactly the upper bounds of those it
kept and the keys built. -/
theorem keysWithin_run (base : Config) :
    ∀ (evs : List (ServiceEvent V)) {s : Service V}, s.Inv →
    ((s.run base evs).KeysWithin n ↔ s.KeysWithin n ∧ ∀ L ∈ s.builtKeys base evs, L ≤ n)
  | [], _, _ => by simp [Service.run, builtKeys]
  | e :: evs, s, h => by
    rw [Service.run, List.foldl_cons, ← Service.run, keysWithin_run base evs (h.step base e),
      keysWithin_step h base e, builtKeys, List.forall_mem_append, and_assoc]

/-- After any callbacks from `init_static_data` on that end with a flush, the max key len
`finish_cb` reports is the length of the longest key `process_snapshot` built, and 0 if it built
none. -/
theorem run_flush_maxKeylen (base : Config) (invId : UInt64) (names : List String)
    (evs : List (ServiceEvent V)) (beyond : Nat → UInt8) :
    ((init invId names : Service V).run base (evs ++ [.flush beyond])).stats.maxKeylen =
      ((init invId names : Service V).builtKeys base evs).foldr max 0 := by
  refine eq_of_forall_ge_iff fun n => ?_
  have hlast : (init invId names : Service V).run base (evs ++ [.flush beyond]) =
      (((init invId names : Service V).run base evs).flushCb base beyond).1 := by
    simp only [Service.run, List.foldl_append, List.foldl_cons, List.foldl_nil, step]
  rw [hlast, maxKeylen_flushCb_le (Inv.run base evs (inv_init invId names)),
    keysWithin_run base evs (inv_init invId names), foldr_max_le_iff]
  exact and_iff_right ⟨n.zero_le, fun _ h => nomatch h⟩

end Service

end CaliperAggregate
