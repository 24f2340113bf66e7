import CaliperAggregate.Proofs.Reclaim
import CaliperAggregate.Proofs.ServiceAccounting
import Mathlib.Data.List.Perm.Subperm

/-!
# The service's list is the registry's linked list

`Service` keeps `s_list` as the list of its databases' ids and runs each callback at once;
`Registry` keeps it as `m_next` and `m_prev` links and runs `flush_cb` one step at a time. The two
agree. Run, for each callback, the registry operations it performs: `acquire` for each database a
callback builds, `retire` when a thread with a database exits, and for a flush a whole run of
`flush_cb` alone. Then `s_list` heads a doubly-linked list that is the service's list, in order,
with the service's `m_retired` flags; and at each flush `flush_cb` returns having flushed the
service's list in order and deleted exactly its retired databases (`run_registry`).

The links determine the list (`Linked.unique`), so a step of the flusher that does not unlink
keeps the list, and an unlink takes one database out: during a flush the list only shrinks to a
sublist of the one the flusher read (`Shape.iterate_sublist`). A run of `flush_cb` alone thus
leaves the databases of that list not retired, in order (`flushAlone`).
-/

namespace CaliperAggregate

namespace Registry

section Unique

variable {s s' : Registry}

/-- From a database, the links lead along at most one list. -/
theorem chain_unique (s : Registry) : ∀ {a : Nat} {L L' : List Nat},
    (a :: L).Chain' (fun x y => s.next x = some y ∧ s.prev y = some x) →
    (a :: L').Chain' (fun x y => s.next x = some y ∧ s.prev y = some x) →
    (∀ t ∈ (a :: L).getLast?, s.next t = none) →
    (∀ t ∈ (a :: L').getLast?, s.next t = none) →
    L = L'
  | _, [], [], _, _, _, _ => rfl
  | a, [], _ :: _, _, h', hl, _ => by
    have hn := (List.chain'_cons.mp h').1.1
    rw [hl a rfl] at hn
    cases hn
  | a, _ :: _, [], h, _, _, hl' => by
    have hn := (List.chain'_cons.mp h).1.1
    rw [hl' a rfl] at hn
    cases hn
  | _, b :: _, c :: _, h, h', hl, hl' => by
    obtain ⟨⟨hb, -⟩, h⟩ := List.chain'_cons.mp h
    obtain ⟨⟨hc, -⟩, h'⟩ := List.chain'_cons.mp h'
    obtain rfl : b = c := Option.some.inj (hb.symm.trans hc)
    rw [List.getLast?_cons_cons] at hl hl'
    rw [chain_unique s h h' hl hl']

/-- `s_list` and the links determine the list. -/
theorem Linked.unique {L L' : List Nat} (h : Linked s L) (h' : Linked s' L')
    (hh : s'.head = s.head) (hn : s'.next = s.next) (hp : s'.prev = s.prev) : L' = L := by
  have hc := h'.chain
  have hl := h'.next_last
  rw [hn, hp] at hc
  rw [hn] at hl
  have hhd : L'.head? = L.head? := by rw [← h'.head_eq, ← h.head_eq, hh]
  cases L with
  | nil => cases L' with
    | nil => rfl
    | cons => cases hhd
  | cons a L => cases L' with
    | nil => cases hhd
    | cons b L' =>
      obtain rfl : b = a := Option.some.inj hhd
      rw [chain_unique s hc h.chain hl h.next_last]

end Unique

section Alone

variable {s : Registry} {L rest : List Nat}

/-- Only the flusher's unlink touches the links. -/
theorem flushStep_links (hpc : ∀ d tmp, s.fpc ≠ .unlink d tmp) :
    s.flushStep.head = s.head ∧ s.flushStep.next = s.next ∧ s.flushStep.prev = s.prev := by
  unfold flushStep
  split
  case h_7 d tmp hu => exact absurd hu (hpc d tmp)
  all_goals exact ⟨rfl, rfl, rfl⟩

/-- A step of the flusher leaves a sublist of the list. -/
theorem Shape.flushStep_sublist {L' rest' : List Nat} (h : Shape s L rest)
    (h' : Shape s.flushStep L' rest') : L'.Sublist L := by
  by_cases hpc : ∃ d tmp, s.fpc = .unlink d tmp
  · -- the unlink takes `d` out of the list, wherever it stands
    obtain ⟨d, tmp, hpc⟩ := hpc
    obtain ⟨⟨pre, rfl⟩, -, -, rfl⟩ :
        d :: rest <:+ L ∧ d ∈ s.flushed ∧ s.retired d = true ∧ tmp = rest.head? := by
      simpa only [FlushAt, hpc] using h.flushAt
    rw [show s.flushStep = { s.unlinkAt d with
        head := if s.head = some d then rest.head? else s.head, fpc := .delete d rest.head? } by
      simp only [Registry.flushStep, hpc]] at h'
    rw [(h.linked.unlink rfl).unique h'.linked rfl rfl rfl]
    exact (List.sublist_cons_self d rest).append_left pre
  · obtain ⟨hh, hn, hp⟩ := flushStep_links fun d tmp e => hpc ⟨d, tmp, e⟩
    rw [h.linked.unique h'.linked hh hn hp]

/-- Steps of the flusher alone leave a sublist of the list. -/
theorem Shape.iterate_sublist : ∀ (k : Nat) {s : Registry} {L rest : List Nat}, Shape s L rest →
    ∃ L' rest', Shape (Registry.flushStep^[k] s) L' rest' ∧ L'.Sublist L
  | 0, _, L, rest, h => ⟨L, rest, h, List.Sublist.refl L⟩
  | k + 1, _, _, _, h => by
    obtain ⟨L', rest', h', -⟩ := h.flushStep
    obtain ⟨L'', rest'', h'', hs⟩ := Shape.iterate_sublist k h'
    exact ⟨L'', rest'', h'', hs.trans (h.flushStep_sublist h')⟩

theorem iterate_flushStep_frame : ∀ (k : Nat) (s : Registry),
    (flushStep^[k] s).fresh = s.fresh ∧ (flushStep^[k] s).retired = s.retired
  | 0, _ => ⟨rfl, rfl⟩
  | k + 1, s => by
    obtain ⟨h₁, h₂⟩ := iterate_flushStep_frame k s.flushStep
    exact ⟨h₁.trans (flushStep_fresh s), h₂.trans (flushStep_retired s)⟩

/-- A sublist that keeps exactly the elements of a list without repeats that satisfy `p` is its
filter by `p`. -/
theorem sublist_eq_filter {L L₀ : List Nat} {p : Nat → Bool} (hs : L.Sublist L₀)
    (hnd : L₀.Nodup) (hm : ∀ x, x ∈ L ↔ x ∈ L₀ ∧ p x = true) : L = L₀.filter p := by
  have hL : L.filter p = L := List.filter_eq_self.mpr fun x hx => ((hm x).mp hx).2
  refine (hL ▸ hs.filter p).eq_of_length_le
    (List.subperm_of_subset (hnd.filter p) fun x hx => ?_).length_le
  exact (hm x).mpr (List.mem_filter.mp hx)

/-- `flush_cb` alone, from before its read of the list `L₀`: within `6 * |L₀| + 6` steps it
returns, having flushed `L₀` in order and deleted exactly its retired databases, and leaves on
the list the databases of `L₀` not retired, in order. -/
theorem flushAlone {L₀ : List Nat} (h : Linked s L₀) (hpc : s.fpc = .idle) (hf : s.flushed = [])
    (hd : s.deleted = []) :
    (flushStep^[6 * L₀.length + 6] s).fpc = .done ∧
      (flushStep^[6 * L₀.length + 6] s).flushed = L₀ ∧
      (∀ d ∈ L₀, d ∈ (flushStep^[6 * L₀.length + 6] s).deleted ↔ s.retired d = true) ∧
      Linked (flushStep^[6 * L₀.length + 6] s) (L₀.filter fun d => !s.retired d) := by
  have hs₀ : Shape s L₀ L₀ :=
    ⟨h, by simpa only [FlushAt, hpc] using ⟨hf, hd⟩, by simp [hf], by simp [hd],
      by simp [hf]⟩
  obtain ⟨h₁, hfl⟩ := hs₀.start hpc
  have hrun : FlushRun s.fresh L₀ s.flushStep L₀ L₀ :=
    ⟨h₁, by simp [flushStep, hpc], by rw [hfl]; rfl, fun d hd => (h.live d hd).1,
      fun d h₁ h₂ => by rw [flushStep_fresh] at h₂; omega⟩
  rw [show 6 * L₀.length + 6 = (6 * L₀.length + 5) + 1 from rfl, Function.iterate_succ_apply]
  have hr := reaches_iterate_flushStep (6 * L₀.length + 5) s.flushStep
  have hdone := hrun.finishes (k := 6 * L₀.length + 5) (by simp [flushStep, hpc, FlushPc.left])
  have hret := (iterate_flushStep_frame (6 * L₀.length + 5) s.flushStep).2
  rw [flushStep_retired] at hret
  obtain ⟨L', rest', hL', hsub⟩ := h₁.iterate_sublist (6 * L₀.length + 5)
  generalize flushStep^[6 * L₀.length + 5] s.flushStep = s' at hr hdone hret hL' ⊢
  obtain ⟨L, rest, hL⟩ := hrun.run hr
  -- the flusher has nothing left to visit, and what it deleted it found retired
  have hnil : rest = [] := by simpa only [FlushAt, hdone] using hL.shape.flushAt
  have hflushed : s'.flushed = L₀ := by rw [← hL.trace, hnil, List.append_nil]
  have hrec : Reclaims s s' := (Reclaims.flushStep ⟨le_rfl, fun _ _ => id, by simp [hf]⟩).run hr
  have hdel : ∀ d ∈ L₀, d ∈ s'.deleted ↔ s.retired d = true := fun d hd₀ =>
    ⟨fun hx => hret ▸ (hL.shape.deleted d hx).2.2, fun hx => by
      simpa [hdone, FlushPc.deleting] using
        hrec.flushed d (hflushed ▸ hd₀) (h.live d hd₀).1 hx⟩
  refine ⟨hdone, hflushed, hdel, ?_⟩
  -- the list is a sublist of `L₀` that holds exactly its databases not retired
  have hsub' : L.Sublist L₀ := hL.shape.linked.unique hL'.linked rfl rfl rfl ▸ hsub
  have hm : ∀ x, x ∈ L ↔ x ∈ L₀ ∧ (!s.retired x) = true := fun x => by
    refine ⟨fun hx => ⟨hsub'.subset hx, ?_⟩, fun ⟨hx, hr⟩ => ?_⟩
    · cases hr' : s.retired x
      · rfl
      · exact absurd hx (hL.shape.deleted x ((hdel x (hsub'.subset hx)).mpr hr')).2.1
    · by_contra hn
      have := (hL.removed x hx hn).2
      rw [hret] at this
      simp [this] at hr
  rw [← sublist_eq_filter hsub' h.nodup hm]
  exact hL.shape.linked

end Alone

end Registry

namespace Service

variable {V : Type}

/-- The registry operations of a callback, `s` being the service before it: `acquire` when the
callback builds a database, `retire` when a thread with a database exits, and for a flush a whole
run of `flush_cb` alone, after which the next call starts afresh. -/
def registryStep (s : Service V) (r : Registry) : ServiceEvent V → Registry
  | .processSnapshot t c .. => if s.slot t = none ∧ c.isSignal = false then r.acquire else r
  | .postInit t .. => if s.slot t = none then r.acquire else r
  | .createAttribute .. => r
  | .flush _ =>
    { Registry.flushStep^[6 * s.list.length + 6] r with fpc := .idle, flushed := [], deleted := [] }
  | .threadExit t =>
    match s.slot t with
    | some d => r.retire d
    | none => r

/-- Between callbacks the registry holds the service's list, in order, its next id and the flags
of its databases, and no flush is under way. -/
structure Simulates (s : Service V) (r : Registry) : Prop where
  linked : Registry.Linked r s.list
  fresh : r.fresh = s.fresh
  idle : r.fpc = .idle
  flushed : r.flushed = []
  deleted : r.deleted = []
  retired : ∀ d ∈ s.list, r.retired d = (s.db d).retired

variable {s s' : Service V} {r : Registry}

theorem Simulates.congr (h : Simulates s r) (hl : s'.list = s.list) (hf : s'.fresh = s.fresh)
    (hr : ∀ d ∈ s.list, (s'.db d).retired = (s.db d).retired) : Simulates s' r :=
  ⟨hl ▸ h.linked, hf ▸ h.fresh, h.idle, h.flushed, h.deleted,
    fun d hd => (h.retired d (hl ▸ hd)).trans (hr d (hl ▸ hd)).symm⟩

theorem Simulates.threadExit (h : Simulates s r) (t : Nat) :
    Simulates (s.threadExit t) (s.registryStep r (.threadExit t)) := by
  simp only [Service.threadExit, registryStep]
  cases s.slot t with
  | none => exact h
  | some d =>
    refine ⟨h.linked.congr rfl rfl rfl h.linked.live, h.fresh, h.idle, h.flushed, h.deleted,
      fun x hx => ?_⟩
    simp only [Registry.retire, Function.update_apply]
    split_ifs with hxd
    · subst hxd
      rfl
    · exact h.retired x hx

variable [DoubleOps V] [Zero V] [Add V]

/-- A thread that takes a new database is `acquire`, which splices it in at the head. -/
theorem Simulates.adopt (h : Simulates s r) (hi : s.Inv) (t : Nat) {db : AggregateDB V}
    (hret : db.retired = false) : Simulates (s.adopt t db) r.acquire := by
  have hl := h.linked.acquire (by rw [h.deleted]; exact List.not_mem_nil _)
  rw [h.fresh] at hl
  refine ⟨hl, by simp [Registry.acquire, Service.adopt, h.fresh], h.idle, h.flushed, h.deleted,
    fun d hd => ?_⟩
  simp only [Registry.acquire, Service.adopt, h.fresh]
  rcases List.mem_cons.mp hd with rfl | hd
  · simp [hret]
  · have hne := Nat.ne_of_lt (hi.lt_fresh d hd)
    rw [Function.update_noteq hne, Function.update_noteq hne, h.retired d hd]

/-- `flush_cb` run alone on the registry leaves the list `flushCb` leaves. -/
theorem Simulates.flushCb (h : Simulates s r) (hi : s.Inv) (base : Config)
    (beyond : Nat → UInt8) :
    Simulates (s.flushCb base beyond).1 (s.registryStep r (.flush beyond)) := by
  obtain ⟨-, hfresh, -, hdb, hlist, -⟩ := flushCb_eq base beyond hi.nodup
  obtain ⟨-, -, -, hl⟩ := Registry.flushAlone h.linked h.idle h.flushed h.deleted
  have hfr := Registry.iterate_flushStep_frame (6 * s.list.length + 6) r
  -- the databases kept are those the service keeps
  have hfilter : (s.list.filter fun d => !r.retired d) = (s.flushCb base beyond).1.list := by
    rw [hlist]
    refine List.filter_congr fun d hd => ?_
    rw [h.retired d hd]
    cases (s.db d).retired <;> rfl
  rw [hfilter] at hl
  refine ⟨hl.congr rfl rfl rfl fun d hd => ⟨(hl.live d hd).1, List.not_mem_nil d⟩,
    hfr.1.trans (h.fresh.trans hfresh.symm), rfl, rfl, rfl, fun d hd => ?_⟩
  have hd' : d ∈ s.list := by
    rw [← hfilter] at hd
    exact List.mem_of_mem_filter hd
  show (Registry.flushStep^[6 * s.list.length + 6] r).retired d = _
  rw [hfr.2, hdb, if_pos hd', h.retired d hd']
  rfl

theorem Simulates.step (h : Simulates s r) (hi : s.Inv) (base : Config) (e : ServiceEvent V) :
    Simulates (s.step base e) (s.registryStep r e) := by
  cases e with
  | processSnapshot t c snap aggr tb kb =>
    simp only [Service.step, registryStep, processSnapshotCb_eq hi base t c snap
      (show (AggregateDB.new aggr tb kb : AggregateDB V).stopped = false from rfl)]
    cases ht : s.slot t with
    | some d =>
      -- the thread's database ingests, keeping its flag
      simp only [reduceCtorEq, false_and, if_false]
      refine h.congr rfl rfl fun x _ => ?_
      dsimp only
      rw [Function.update_apply]
      split_ifs with hxd
      · rw [hxd]
        exact (AggregateDB.processSnapshot_keepsFlags _ c snap _).retired
      · rfl
    | none =>
      cases hsig : c.isSignal
      · simp only [and_self, if_true, Bool.false_eq_true, if_false]
        exact h.adopt hi t (AggregateDB.processSnapshot_keepsFlags _ c snap _).retired
      · simp only [and_false, if_false, if_true]
        exact h.congr rfl rfl fun _ _ => rfl
  | postInit t lookup aggr tb kb =>
    simp only [Service.step, postInitCb_eq, registryStep]
    cases s.slot t with
    | some d => exact h.congr rfl rfl fun _ _ => rfl
    | none => exact (h.adopt hi t rfl).congr rfl rfl fun _ _ => rfl
  | createAttribute => exact h.congr rfl rfl fun _ _ => rfl
  | flush beyond => exact h.flushCb hi base beyond
  | threadExit t => exact h.threadExit t

/-- The registry after the registry operations of the callbacks `evs`. -/
def registryRun (base : Config) : Service V → Registry → List (ServiceEvent V) → Registry
  | _, r, [] => r
  | s, r, e :: evs => registryRun base (s.step base e) (s.registryStep r e) evs

theorem Simulates.run (base : Config) : ∀ (evs : List (ServiceEvent V)) {s : Service V}
    {r : Registry}, s.Inv → Simulates s r →
      Simulates (s.run base evs) (s.registryRun base r evs)
  | [], _, _, _, h => h
  | e :: evs, _, _, hi, h => Simulates.run base evs (hi.step base e) (h.step hi base e)

/-- After any callbacks from `init_static_data` on, with the registry operations they perform run
from the empty registry: `s_list` heads a doubly-linked list that is the service's list, in
order, with the service's `m_retired` flags; and `flush_cb`, run now alone, returns having
flushed the service's list in order, deleted exactly its retired databases and left the others
linked in their order. -/
theorem run_registry (base : Config) (invId : UInt64) (names : List String)
    (evs : List (ServiceEvent V)) :
    let s := (init invId names : Service V).run base evs
    let r := (init invId names : Service V).registryRun base .init evs
    let f := Registry.flushStep^[6 * s.list.length + 6] r
    Registry.Linked r s.list ∧ (∀ d ∈ s.list, r.retired d = (s.db d).retired) ∧
      f.fpc = .done ∧ f.flushed = s.list ∧
      (∀ d ∈ s.list, d ∈ f.deleted ↔ (s.db d).retired = true) ∧
      Registry.Linked f (s.list.filter fun d => !(s.db d).retired) := by
  intro s r f
  have h : Simulates s r := Simulates.run base evs (inv_init invId names)
    ⟨Registry.shape_init.linked, rfl, rfl, rfl, rfl, fun _ h => nomatch h⟩
  obtain ⟨hdone, hflushed, hdel, hleft⟩ :=
    Registry.flushAlone h.linked h.idle h.flushed h.deleted
  refine ⟨h.linked, h.retired, hdone, hflushed,
    fun d hd => (hdel d hd).trans (by rw [h.retired d hd]), ?_⟩
  rwa [List.filter_congr fun d hd => by rw [h.retired d hd]] at hleft

end Service

end CaliperAggregate
