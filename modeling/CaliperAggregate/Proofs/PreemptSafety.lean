import CaliperAggregate.Proofs.PreemptRuns

/-!
# A second ingest inside the first

`Inv` says what a call at each place of the machine knows of the trie: the bytes it has walked
lead to `entry`, the edge it read is there, and the trie is a tree. Each step keeps it and keeps
every edge (`inv_step`), so a whole call does (`inv_processSnapshot`).

Only inside a new edge does the call hold something another call can make false: that
`next[b]` is empty, and what `m_num_trie_entries` was. Anywhere else, a whole call run in between
keeps what it knows (`Inv.of_edgesKept`), so once the stopped call returns the trie is a tree, its
node is reached along its key, and every path the other call left is still there
(`preempted_outside_new_edge`). Inside a new edge that fails: a signal-context call stopping a call
there loses its own node, or leaves one id in two slots (`preempted_inside_new_edge`).
-/

namespace CaliperAggregate

section Edges

variable {t : BlockAlloc TrieNode}

theorem edgesKept_get (t : BlockAlloc TrieNode) (id : Nat) (alloc : Bool) :
    EdgesKept t (t.get TrieNode.init id alloc).2 :=
  (TrieGrows.get t id alloc).toEdgesKept

/-- Writing a node's `k_id` or `count` keeps every edge. -/
theorem edgesKept_set_node {e : Nat} {n : TrieNode} (hn : n.next = (t.elems e).next) :
    EdgesKept t (t.set e n) where
  allocated _ hp := hp
  next p b _ _ := by by_cases hp : p = e <;> simp [hp, hn]

theorem lookup_snoc {pre : List UInt8} {e c : Nat} {b : UInt8} (hl : lookup t pre = some e)
    (hc : child t e b = some c) : lookup t (pre ++ [b]) = some c := by
  obtain ⟨h0, hs⟩ := lookup_eq_some.mp hl
  exact lookup_eq_some.mpr ⟨h0, lookupFrom_concat.mpr ⟨e, hs, hc⟩⟩

end Edges

namespace AggregateDB

variable {V : Type} [DoubleOps V] [Add V] [Zero V]

/-- The call `g` at the empty edge `b` of node `e`: the bytes it walked lead to `e`, and `b` and
`bs` are the rest of its key. -/
def AtEmptySlot (g : Ingest V) (t : BlockAlloc TrieNode) (e : Nat) (b : UInt8) (bs : List UInt8) :
    Prop :=
  ∃ pre, pre ++ b :: bs = g.key ∧ lookup t pre = some e ∧ (t.elems e).next b = 0

/-- What the call `g` at `pc` knows of the trie `t` and its counter `N`. Inside a new edge the
trie is a tree up to the id the call took. -/
def Inv (g : Ingest V) : Pc V → BlockAlloc TrieNode → Nat → Prop
  | .keylen, t, N | .root, t, N | .dropped, t, N | .droppedStore _, t, N | .done none, t, N =>
    TrieInv t N
  | .next e bs, t, N => TrieInv t N ∧ ∃ pre, pre ++ bs = g.key ∧ lookup t pre = some e
  | .bump e b bs, t, N => TrieInv t N ∧ AtEmptySlot g t e b bs
  | .bumpStore e b bs n, t, N => TrieInv t N ∧ AtEmptySlot g t e b bs ∧ n = N
  | .link e b bs id, t, N =>
    ∃ n, N = n + 1 ∧ id = UInt32.ofNat (n + 1) ∧ TrieInv t n ∧ AtEmptySlot g t e b bs
  | .fetch bs id, t, N => TrieInv t N ∧ ∃ pre b e, pre ++ b :: bs = g.key ∧ lookup t pre = some e ∧
      (t.elems e).next b = id ∧ id ≠ 0
  | .kId e, t, N | .firstId e, t, N | .kernelsAdd e _, t, N | .kernelsStore e _ _, t, N
  | .kernel e _ _, t, N | .setKId e _, t, N | .count e, t, N | .countStore e _, t, N
  | .values e _ _ _, t, N | .done (some e), t, N => TrieInv t N ∧ lookup t g.key = some e

variable {g : Ingest V}

omit [DoubleOps V] [Add V] [Zero V] in
/-- A write of node `e`'s `k_id` or `count`, once the key has reached it. -/
theorem inv_set_node {t : BlockAlloc TrieNode} {N e : Nat} {n : TrieNode}
    (h : TrieInv t N ∧ lookup t g.key = some e) (hn : n.next = (t.elems e).next) :
    (TrieInv (t.set e n) N ∧ lookup (t.set e n) g.key = some e) ∧ EdgesKept t (t.set e n) :=
  ⟨⟨h.1.set_node (h.1.lookup_le h.2) hn, (lookup_set_node t hn g.key).trans h.2⟩,
    edgesKept_set_node hn⟩

/-- One step keeps what the call knows, and keeps every edge. -/
theorem inv_step {pc : Pc V} {db : AggregateDB V} (h : Inv g pc db.trie db.numTrieEntries) :
    Inv g (step g pc db).1 (step g pc db).2.trie (step g pc db).2.numTrieEntries ∧
      EdgesKept db.trie (step g pc db).2.trie := by
  cases pc with
  | root =>
    refine ⟨?_, edgesKept_get db.trie 0 g.alloc⟩
    dsimp only [step]
    rcases hr : (db.trie.get TrieNode.init 0 g.alloc).1 with _ | e
    · exact h.get 0 g.alloc
    · obtain ⟨rfl, ha⟩ := BlockAlloc.get_fst_eq_some hr
      exact ⟨h.get 0 g.alloc, [], rfl, lookup_eq_some.mpr ⟨ha, rfl⟩⟩
  | next e bs =>
    obtain ⟨hi, pre, hpre, hl⟩ := h
    cases bs with
    | nil => exact ⟨⟨hi, by rwa [← hpre, List.append_nil]⟩, .refl _⟩
    | cons b bs =>
      by_cases h0 : (db.node e).next b = 0
      · simp only [step, if_pos h0]
        exact ⟨⟨hi, pre, hpre, hl, h0⟩, .refl _⟩
      · simp only [step, if_neg h0]
        exact ⟨⟨hi, pre, b, e, hpre, hl, rfl, h0⟩, .refl _⟩
  | bump => exact ⟨⟨h.1, h.2, rfl⟩, .refl _⟩
  | bumpStore e b bs n =>
    obtain ⟨hi, hat, rfl⟩ := h
    exact ⟨⟨_, rfl, rfl, hi, hat⟩, .refl _⟩
  | link e b bs id =>
    obtain ⟨n, hN, rfl, hi, pre, hpre, hl, h0⟩ := h
    -- the write completes `addEdge` from the counter before the call took its id
    have he : db.trie.Allocated e := allocated_of_lookup hl
    have hg : TrieGrows { db with numTrieEntries := n }.trie
        ({ db with numTrieEntries := n }.addEdge e b).trie :=
      trieGrows_addEdge h0
    have hi' : TrieInv ({ db with numTrieEntries := n }.addEdge e b).trie (n + 1) :=
      trieInv_addEdge hi he (hi.lookup_le hl) h0
    simp only [step]
    rw [hN]
    refine ⟨⟨hi', pre, b, e, hpre, hg.lookup_some hl, ?_, ?_⟩, hg.toEdgesKept⟩
    · simp [node]
    · intro h
      have := hi.toNat_ofNat_succ
      rw [h] at this
      exact absurd this (by simp)
  | fetch bs id =>
    obtain ⟨hi, pre, b, e, hpre, hl, hnext, hid⟩ := h
    have hk := edgesKept_get db.trie id.toNat g.alloc
    refine ⟨?_, hk⟩
    dsimp only [step]
    rcases hr : (db.trie.get TrieNode.init id.toNat g.alloc).1 with _ | c
    · exact hi.get _ g.alloc
    · obtain ⟨rfl, ha⟩ := BlockAlloc.get_fst_eq_some hr
      have he := allocated_of_lookup hl
      have hn := hk.next e b he (hnext ▸ hid)
      refine ⟨hi.get _ g.alloc, pre ++ [b], by rw [List.append_assoc]; exact hpre,
        lookup_snoc (hk.lookup_some hl)
          (child_eq_some.mpr ⟨?_, ?_, (hi.get _ g.alloc).block_le _ ha, ha⟩)⟩
      · rw [hn, hnext]; exact hid
      · rw [hn, hnext]
  | kId e =>
    simp only [step]
    split_ifs <;> exact ⟨h, .refl _⟩
  | kernel e first is =>
    cases is with
    | nil => exact ⟨h, .refl _⟩
    | cons i is =>
      simp only [step]
      split_ifs
      · exact ⟨h, .refl _⟩
      · exact ⟨h.1, .refl _⟩
  | setKId e first => exact inv_set_node h rfl
  | countStore e c => exact inv_set_node h rfl
  | values e a xs is =>
    match xs, is with
    | [], _ => exact ⟨h, .refl _⟩
    | _ :: _, [] => exact ⟨h, .refl _⟩
    | x :: xs, i :: is =>
      simp only [step]
      split_ifs <;> exact ⟨h, .refl _⟩
  | done o => exact ⟨h, .refl _⟩
  | keylen | firstId | kernelsAdd | kernelsStore | dropped | droppedStore | count =>
    exact ⟨h, .refl _⟩

/-- A run keeps what the call knows, and keeps every edge. -/
theorem Reaches.inv {s u : Pc V × AggregateDB V} (hr : Reaches g s u)
    (h : Inv g s.1 s.2.trie s.2.numTrieEntries) :
    Inv g u.1 u.2.trie u.2.numTrieEntries ∧ EdgesKept s.2.trie u.2.trie := by
  induction hr with
  | refl => exact ⟨h, .refl _⟩
  | tail _ hst ih =>
    subst hst
    obtain ⟨hi, hk⟩ := ih
    obtain ⟨hi', hk'⟩ := inv_step hi
    exact ⟨hi', hk.trans hk'⟩

omit [DoubleOps V] [Add V] [Zero V] in
/-- Outside a new edge, the trie is a tree. -/
theorem Inv.trieInv {pc : Pc V} {t : BlockAlloc TrieNode} {N : Nat} (hw : pc.inWindow = false)
    (h : Inv g pc t N) : TrieInv t N := by
  cases pc with
  | bump | bumpStore | link => exact absurd hw (by simp [Pc.inWindow])
  | done o => cases o; exacts [h, h.1]
  | keylen | root | dropped | droppedStore => exact h
  | next | fetch | kId | firstId | kernelsAdd | kernelsStore | kernel | setKId | count | countStore
  | values => exact h.1

omit [DoubleOps V] [Add V] [Zero V] in
theorem Inv.trieInv_done {o : Option Nat} {t : BlockAlloc TrieNode} {N : Nat}
    (h : Inv g (.done o) t N) : TrieInv t N := by
  cases o
  exacts [h, h.1]

/-- A whole call keeps the trie a tree and keeps every edge; the node it counts is reached along
its key. -/
theorem inv_processSnapshot {db : AggregateDB V} (h : TrieInv db.trie db.numTrieEntries)
    (cfg : Config) (c : Host) (snap : SnapshotRecord V) :
    TrieInv (db.processSnapshot cfg c snap).trie (db.processSnapshot cfg c snap).numTrieEntries ∧
      EdgesKept db.trie (db.processSnapshot cfg c snap).trie := by
  by_cases hne : IsEmpty snap
  · have he : db.processSnapshot cfg c snap = db := by
      unfold processSnapshot
      rw [if_pos hne]
    rw [he]
    exact ⟨h, .refl _⟩
  · obtain ⟨o, hr⟩ := reaches_processSnapshot cfg c snap db hne
    obtain ⟨hi, hk⟩ := hr.inv h
    exact ⟨hi.trieInv_done, hk⟩

omit [DoubleOps V] [Add V] [Zero V] in
/-- Outside a new edge, what the call knows survives anything that keeps the edges and the tree. -/
theorem Inv.of_edgesKept {pc : Pc V} {t t' : BlockAlloc TrieNode} {N N' : Nat}
    (hw : pc.inWindow = false) (h : Inv g pc t N) (hk : EdgesKept t t') (hi : TrieInv t' N') :
    Inv g pc t' N' := by
  cases pc with
  | next e bs =>
    obtain ⟨-, pre, hpre, hl⟩ := h
    exact ⟨hi, pre, hpre, hk.lookup_some hl⟩
  | fetch bs id =>
    obtain ⟨h₀, pre, b, e, hpre, hl, hnext, hid⟩ := h
    have he := allocated_of_lookup hl
    exact ⟨hi, pre, b, e, hpre, hk.lookup_some hl, (hk.next e b he (hnext ▸ hid)).trans hnext, hid⟩
  | bump | bumpStore | link => exact absurd hw (by simp [Pc.inWindow])
  | done o => cases o with
    | none => exact hi
    | some e => exact ⟨hi, hk.lookup_some h.2⟩
  | keylen | root | dropped | droppedStore => exact hi
  | kId | firstId | kernelsAdd | kernelsStore | kernel | setKId | count | countStore | values =>
    exact ⟨hi, hk.lookup_some h.2⟩

/-- A call stopped anywhere but inside a new edge, with any whole call run before it resumes:
once it returns, the trie is a tree (no id is in two slots), the node it counted is reached along
its key, and every path of the trie the other call left still reaches its node. -/
theorem preempted_outside_new_edge {db db' : AggregateDB V} {o : Option Nat}
    (hdb : TrieInv db.trie db.numTrieEntries) (g : Ingest V) (k : Call V) (n m : Nat)
    (hw : ((stepPair g)^[n] (.keylen, db)).1.inWindow = false)
    (hdone : preempted g k n m db = (.done o, db')) :
    TrieInv db'.trie db'.numTrieEntries ∧ (∀ e, o = some e → lookup db'.trie g.key = some e) ∧
      ∀ K x, lookup (((stepPair g)^[n] (.keylen, db)).2.processSnapshot k.cfg k.host k.snap).trie K =
        some x → lookup db'.trie K = some x := by
  have h₁ := ((reaches_iterate g (.keylen, db) n).inv hdb).1
  unfold preempted at hdone
  generalize (stepPair g)^[n] (.keylen, db) = s at h₁ hw hdone ⊢
  obtain ⟨pc, db₁⟩ := s
  -- the other call keeps the tree and every edge, so what the stopped call knows
  obtain ⟨hi₂, hk₂⟩ := inv_processSnapshot (h₁.trieInv hw) k.cfg k.host k.snap
  obtain ⟨h₃, hk₃⟩ := (reaches_iterate g (pc, db₁.processSnapshot k.cfg k.host k.snap) m).inv
    (h₁.of_edgesKept hw hk₂ hi₂)
  rw [hdone] at h₃ hk₃
  exact ⟨h₃.trieInv_done, fun e he => by subst he; exact h₃.2, fun K x hx => hk₃.lookup_some hx⟩

/-- A call of node 5 stopped before it reads the root's slot 2, resumed after a signal-context
call of node 4 made the path `[2, 4]`: it walks the root's edge, takes id 3 below node 1 and
counts its snapshot there. -/
theorem preempted_outside_new_edge_before_slot :
    let db := (new [] 0 0 : AggregateDB Float)
    let g := ingestOf ⟨0, [], [], 0⟩ ⟨false, fun _ => none⟩
      (⟨[⟨⟨5, 7⟩, []⟩], []⟩ : SnapshotRecord Float)
    let k : Call Float := ⟨⟨0, [], [], 0⟩, ⟨true, fun _ => none⟩, ⟨[⟨⟨4, 7⟩, []⟩], []⟩⟩
    TrieInv db.trie db.numTrieEntries ∧ ((stepPair g)^[2] (.keylen, db)).1.inWindow = false ∧
      preempted g k 2 14 db = (.done (some 3), (preempted g k 2 14 db).2) ∧
      TrieInv (preempted g k 2 14 db).2.trie (preempted g k 2 14 db).2.numTrieEntries ∧
      (∀ e, some 3 = some e → lookup (preempted g k 2 14 db).2.trie g.key = some e) ∧
      ∀ K x, lookup (((stepPair g)^[2] (.keylen, db)).2.processSnapshot k.cfg k.host k.snap).trie
        K = some x → lookup (preempted g k 2 14 db).2.trie K = some x :=
  have h := (Reachable.new [] 0 0 (V := Float)).trieInv
  have hdone : preempted (ingestOf ⟨0, [], [], 0⟩ ⟨false, fun _ => none⟩
      (⟨[⟨⟨5, 7⟩, []⟩], []⟩ : SnapshotRecord Float))
      ⟨⟨0, [], [], 0⟩, ⟨true, fun _ => none⟩, ⟨[⟨⟨4, 7⟩, []⟩], []⟩⟩ 2 14 (new [] 0 0) =
      (.done (some 3), (preempted (ingestOf ⟨0, [], [], 0⟩ ⟨false, fun _ => none⟩
        (⟨[⟨⟨5, 7⟩, []⟩], []⟩ : SnapshotRecord Float))
        ⟨⟨0, [], [], 0⟩, ⟨true, fun _ => none⟩, ⟨[⟨⟨4, 7⟩, []⟩], []⟩⟩ 2 14 (new [] 0 0)).2) :=
    Prod.ext rfl rfl
  ⟨h, rfl, hdone, preempted_outside_new_edge h _ _ 2 14 rfl hdone⟩

/-- Two schedules inside a new edge, on a new database without aggregated attributes: the stopped
call ingests a snapshot of node 5 (key `[2, 5]`), the signal-context call one of node 4 (key
`[2, 4]`). Stopped after reading the root's slot 2 empty: the signal call counts its snapshot at
node 2, reached along `[2, 4]`; the resumed call links slot 2 to a new node 3, and node 2 keeps its
count but `[2, 4]` no longer reaches a node. Stopped at node 1 between the read and the write of
`m_num_trie_entries`: both calls link a slot of node 1 to id 2. -/
theorem preempted_inside_new_edge :
    ((stepPair (ingestOf ⟨0, [], [], 0⟩ ⟨false, fun _ => none⟩ ⟨[⟨⟨5, 7⟩, []⟩], []⟩))^[3]
      (.keylen, (new [] 0 0 : AggregateDB Float))).1.inWindow = true ∧
    lookup (((stepPair (ingestOf ⟨0, [], [], 0⟩ ⟨false, fun _ => none⟩ ⟨[⟨⟨5, 7⟩, []⟩], []⟩))^[3]
      (.keylen, (new [] 0 0 : AggregateDB Float))).2.processSnapshot ⟨0, [], [], 0⟩
        ⟨true, fun _ => none⟩ ⟨[⟨⟨4, 7⟩, []⟩], []⟩).trie [2, 4] = some 2 ∧
    lookup (preempted (ingestOf ⟨0, [], [], 0⟩ ⟨false, fun _ => none⟩ ⟨[⟨⟨5, 7⟩, []⟩], []⟩)
      ⟨⟨0, [], [], 0⟩, ⟨true, fun _ => none⟩, ⟨[⟨⟨4, 7⟩, []⟩], []⟩⟩ 3 14
        (new [] 0 0 : AggregateDB Float)).2.trie [2, 4] = none ∧
    ((preempted (ingestOf ⟨0, [], [], 0⟩ ⟨false, fun _ => none⟩ ⟨[⟨⟨5, 7⟩, []⟩], []⟩)
      ⟨⟨0, [], [], 0⟩, ⟨true, fun _ => none⟩, ⟨[⟨⟨4, 7⟩, []⟩], []⟩⟩ 3 14
        (new [] 0 0 : AggregateDB Float)).2.node 2).count = 1 ∧
    ((stepPair (ingestOf ⟨0, [], [], 0⟩ ⟨false, fun _ => none⟩ ⟨[⟨⟨5, 7⟩, []⟩], []⟩))^[9]
      (.keylen, (new [] 0 0 : AggregateDB Float))).1.inWindow = true ∧
    ((preempted (ingestOf ⟨0, [], [], 0⟩ ⟨false, fun _ => none⟩ ⟨[⟨⟨5, 7⟩, []⟩], []⟩)
      ⟨⟨0, [], [], 0⟩, ⟨true, fun _ => none⟩, ⟨[⟨⟨4, 7⟩, []⟩], []⟩⟩ 9 8
        (new [] 0 0 : AggregateDB Float)).2.node 1).next 4 = 2 ∧
    ((preempted (ingestOf ⟨0, [], [], 0⟩ ⟨false, fun _ => none⟩ ⟨[⟨⟨5, 7⟩, []⟩], []⟩)
      ⟨⟨0, [], [], 0⟩, ⟨true, fun _ => none⟩, ⟨[⟨⟨4, 7⟩, []⟩], []⟩⟩ 9 8
        (new [] 0 0 : AggregateDB Float)).2.node 1).next 5 = 2 := by
  decide

end AggregateDB

end CaliperAggregate
