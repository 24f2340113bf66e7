import CaliperAggregate.Proofs.FlushRecords

/-!
# How deep the trie goes

`process_snapshot` raises `m_max_keylen` to the key's length before `find_entry` walks the key,
and the walk writes edges only at the nodes it stands on, along the key. So in every state a
database reaches, a node the root reaches and that has an edge lies less than `m_max_keylen`
bytes down (`KeyDepth`, `Reachable.keyDepth`). A block brought in holds fresh nodes, which add no
path to a node with an edge (`KeyDepth.of_extends`); the new edge starts at the node the walk
stands on, whose path is a prefix of the key, and leads to a fresh id (`keyDepth_addEdge`); the
writes of `count` and `k_id` change no path (`SameEdges`).

So `recursive_flush` calls itself at most `m_max_keylen` levels deep, and any fuel past it writes
what `flush` writes (`recursiveFlush_add_fuel`, `trie_shape`).
-/

namespace CaliperAggregate

/-- Every node that the root reaches and that has an edge lies less than `M` bytes down. -/
def KeyDepth (t : BlockAlloc TrieNode) (M : Nat) : Prop :=
  ∀ K x b, lookup t K = some x → (t.elems x).next b ≠ 0 → K.length < M

/-- Two tries with the same blocks and the same edges: they differ at most in counts and
kernels. -/
structure SameEdges (t t' : BlockAlloc TrieNode) : Prop where
  allocated : ∀ p, t'.Allocated p ↔ t.Allocated p
  next : ∀ p, (t'.elems p).next = (t.elems p).next

section Depth

variable {t t' : BlockAlloc TrieNode} {M : Nat}

theorem SameEdges.refl (t : BlockAlloc TrieNode) : SameEdges t t :=
  ⟨fun _ => Iff.rfl, fun _ => rfl⟩

theorem sameEdges_set {e : Nat} {n : TrieNode} (hn : n.next = (t.elems e).next) :
    SameEdges t (t.set e n) :=
  ⟨fun _ => Iff.rfl, fun p => by by_cases hp : p = e <;> simp [hp, hn]⟩

theorem SameEdges.lookup_eq (h : SameEdges t t') (K : List UInt8) : lookup t' K = lookup t K := by
  have hchild : ∀ p b, child t' p b = child t p b := fun p b => by
    simp only [child, h.next, BlockAlloc.get_fst, h.allocated]
  have hfrom : ∀ p (s : List UInt8), lookupFrom t' p s = lookupFrom t p s := fun p s => by
    induction s generalizing p with
    | nil => rfl
    | cons b bs ih => simp only [lookupFrom, hchild, ih]
  simp only [lookup, hfrom, BlockAlloc.get_fst, h.allocated]

theorem KeyDepth.of_sameEdges (hd : KeyDepth t M) (h : SameEdges t t') : KeyDepth t' M :=
  fun K x b hx hb => hd K x b (by rwa [← h.lookup_eq]) (by rwa [← h.next])

theorem KeyDepth.mono (hd : KeyDepth t M) {M' : Nat} (hM : M ≤ M') : KeyDepth t M' :=
  fun K x b hx hb => (hd K x b hx hb).trans_le hM

theorem keyDepth_of_unallocated (h : ∀ p, ¬ t.Allocated p) : KeyDepth t M :=
  fun _ _ _ hx => absurd (lookup_eq_some.mp hx).1 (h 0)

/-- A node the root reaches lies at most `M` bytes down: its parent has an edge. -/
theorem KeyDepth.length_le (hd : KeyDepth t M) {K : List UInt8} {x : Nat}
    (hx : lookup t K = some x) : K.length ≤ M := by
  rcases K.eq_nil_or_concat with rfl | ⟨K', b, rfl⟩
  · exact Nat.zero_le M
  · obtain ⟨h0, hs⟩ := lookup_eq_some.mp hx
    obtain ⟨p, hp, hc⟩ := lookupFrom_concat.mp (by simpa using hs)
    have := hd K' p b (lookup_eq_some.mpr ⟨h0, hp⟩) (child_eq_some.mp hc).1
    simp only [List.concat_eq_append, List.length_append, List.length_singleton]
    omega

/-- From a node without edges, the only path is the empty one. -/
theorem lookupFrom_of_init {e x : Nat} (he : t.elems e = TrieNode.init) :
    ∀ {K : List UInt8}, lookupFrom t e K = some x → K = [] ∧ x = e
  | [], h => ⟨rfl, (Option.some.inj h).symm⟩
  | b :: bs, h => by simp [lookupFrom, child, he, TrieNode.init] at h

/-- A path of a trie that brought in blocks of fresh nodes, to a node that was there before, was
there before. -/
theorem lookupFrom_of_extends (hx : t.Extends TrieNode.init t') {x : Nat} (hxo : t.Allocated x) :
    ∀ {K : List UInt8} {e : Nat}, t'.Allocated e → lookupFrom t' e K = some x →
      t.Allocated e ∧ lookupFrom t e K = some x
  | [], e, _, h => by cases h; exact ⟨hxo, rfl⟩
  | b :: bs, e, he, h => by
    have heo : t.Allocated e := by
      by_contra hn
      exact List.cons_ne_nil _ _ (lookupFrom_of_init (hx.new e he hn).1 h).1
    simp only [lookupFrom, Option.bind_eq_some] at h ⊢
    obtain ⟨c, hc, hs⟩ := h
    obtain ⟨hne, hcn, hb, hca⟩ := child_eq_some.mp hc
    obtain ⟨hco, hs'⟩ := lookupFrom_of_extends hx hxo hca hs
    rw [(hx.old e heo).2] at hne hcn
    exact ⟨heo, c, child_eq_some.mpr ⟨hne, hcn, hb, hco⟩, hs'⟩

/-- Blocks of fresh nodes add no path to a node with an edge. -/
theorem KeyDepth.of_extends (hd : KeyDepth t M) (hx : t.Extends TrieNode.init t') :
    KeyDepth t' M := by
  intro K x b hK hb
  have hxa := allocated_of_lookup hK
  have hxo : t.Allocated x := by
    by_contra hn
    exact hb (by rw [(hx.new x hxa hn).1]; rfl)
  obtain ⟨h0, hs⟩ := lookup_eq_some.mp hK
  obtain ⟨h0', hs'⟩ := lookupFrom_of_extends hx hxo h0 hs
  exact hd K x b (lookup_eq_some.mpr ⟨h0', hs'⟩) (by rwa [← (hx.old x hxo).2])

end Depth

namespace AggregateDB

variable {V : Type} {db : AggregateDB V} {M : Nat}

section Walk

variable {e : Nat} {b : UInt8}

/-- A path of the trie after `addEdge e b` to an id up to `m_num_trie_entries` avoids the new
edge, whose fresh end has no edge of its own. -/
theorem lookupFrom_addEdge (h : TrieInv db.trie db.numTrieEntries) (heN : e ≤ db.numTrieEntries)
    {x : Nat} (hxN : x ≤ db.numTrieEntries) : ∀ {K : List UInt8} {p : Nat},
      lookupFrom (db.addEdge e b).trie p K = some x → lookupFrom db.trie p K = some x
  | [], _, hs => hs
  | b' :: bs, p, hs => by
    simp only [lookupFrom, Option.bind_eq_some] at hs ⊢
    obtain ⟨c, hc, hs⟩ := hs
    obtain ⟨hne, hcn, hb, hca⟩ := child_eq_some.mp hc
    rw [next_addEdge] at hne hcn
    split_ifs at hne hcn with hpb
    · -- the new edge leads to the fresh id `N + 1`, which reaches only itself
      rw [h.toNat_ofNat_succ] at hcn
      have hinit : (db.addEdge e b).trie.elems c = TrieNode.init := by
        rw [addEdge_trie, BlockAlloc.set_elems, if_neg (by omega)]
        exact h.fresh c hca (by omega)
      have := (lookupFrom_of_init hinit hs).2
      omega
    · exact ⟨c, child_eq_some.mpr ⟨hne, hcn, hb, hca⟩, lookupFrom_addEdge h heN hxN hs⟩

/-- `find_entry`'s new edge starts at the node the walk stands on, less than `M` bytes down. -/
theorem keyDepth_addEdge (h : TrieInv db.trie db.numTrieEntries) (hd : KeyDepth db.trie M)
    {P : List UInt8} (hP : lookup db.trie P = some e) (hPM : P.length < M) :
    KeyDepth (db.addEdge e b).trie M := by
  intro K x b' hK hb'
  have heN := h.lookup_le hP
  have hxa : db.trie.Allocated x := by
    have := allocated_of_lookup hK
    exact this
  -- a node past the counter is fresh, so `x`, which has an edge, is not
  have hxN : x ≤ db.numTrieEntries := by
    by_contra hN
    rw [addEdge_trie, BlockAlloc.set_elems, if_neg (by omega), h.fresh x hxa (by omega)] at hb'
    exact hb' rfl
  obtain ⟨h0, hs⟩ := lookup_eq_some.mp hK
  have hK' : lookup db.trie K = some x := lookup_eq_some.mpr ⟨h0, lookupFrom_addEdge h heN hxN hs⟩
  rw [next_addEdge] at hb'
  split_ifs at hb' with hx
  · rw [h.lookup_injective hK' (hx.1 ▸ hP)]
    exact hPM
  · exact hd K x b' hK' hb'

/-- One step of the walk, at the end of a path shorter than `M`. -/
theorem keyDepth_walkStep (h : TrieInv db.trie db.numTrieEntries) (hd : KeyDepth db.trie M)
    {P : List UInt8} (hP : lookup db.trie P = some e) (hPM : P.length < M) (alloc : Bool) :
    KeyDepth (db.walkStep alloc e b).2.trie M := by
  have h₁ : KeyDepth (if (db.node e).next b = 0 then db.addEdge e b else db).trie M := by
    split_ifs
    exacts [keyDepth_addEdge h hd hP hPM, hd]
  exact h₁.of_extends (BlockAlloc.extends_get _ _ _ _)

/-- The walk along the rest of a key no longer than `M`. -/
theorem keyDepth_walk (alloc : Bool) : ∀ (key : List UInt8) {db : AggregateDB V} {e : Nat}
    {P : List UInt8}, TrieInv db.trie db.numTrieEntries → KeyDepth db.trie M →
    lookup db.trie P = some e → P.length + key.length ≤ M →
    KeyDepth (walk alloc db (some e) key).2.trie M
  | [], _, _, _, _, hd, _, _ => hd
  | b :: bs, db, e, P, h, hd, hP, hM => by
    simp only [List.length_cons] at hM
    obtain ⟨hg, hc⟩ := walkStep_spec h (allocated_of_lookup hP) (h.lookup_le hP) alloc b
    have hd' := keyDepth_walkStep h hd hP (by omega) alloc (b := b)
    simp only [walk]
    cases hr : (db.walkStep alloc e b).1 with
    | none => simpa only [walk] using hd'
    | some c =>
      obtain ⟨h0, hs⟩ := lookup_eq_some.mp (hg.grows.lookup_some hP)
      refine keyDepth_walk alloc bs hg.inv hd'
        (lookup_eq_some.mpr ⟨h0, lookupFrom_concat.mpr ⟨e, hs, hc c hr⟩⟩) ?_
      simp only [List.length_append, List.length_singleton]
      omega

end Walk

section Ingest

variable [DoubleOps V] [Zero V]

theorem sameEdges_allocKernels (db : AggregateDB V) (e : Nat) (alloc : Bool) :
    SameEdges db.trie (db.allocKernels e alloc).2.trie := by
  unfold allocKernels
  dsimp only
  split_ifs
  · exact sameEdges_set rfl
  · exact SameEdges.refl _
  · exact SameEdges.refl _

theorem allocKernels_maxKeylen (db : AggregateDB V) (e : Nat) (alloc : Bool) :
    (db.allocKernels e alloc).2.maxKeylen = db.maxKeylen := by
  unfold allocKernels
  dsimp only
  split_ifs <;> rfl

/-- `find_entry` along a key no longer than `M`. -/
theorem keyDepth_findEntry (h : TrieInv db.trie db.numTrieEntries) (hd : KeyDepth db.trie M)
    {key : List UInt8} (hk : key.length ≤ M) (alloc : Bool) :
    KeyDepth (db.findEntry key alloc).2.trie M ∧
      (db.findEntry key alloc).2.maxKeylen = db.maxKeylen := by
  obtain ⟨w, hg, -, hfind⟩ := findEntry_spec h key alloc
  obtain ⟨t, N, hw⟩ := hg.frame
  have hd₀ : KeyDepth (db.trie.get TrieNode.init 0 alloc).2 M :=
    hd.of_extends (BlockAlloc.extends_get _ _ _ _)
  have hwalk : KeyDepth (walk alloc { db with trie := (db.trie.get TrieNode.init 0 alloc).2 }
      (db.trie.get TrieNode.init 0 alloc).1 key).2.trie M := by
    cases hr : (db.trie.get TrieNode.init 0 alloc).1 with
    | none => simpa only [walk] using hd₀
    | some r =>
      obtain ⟨rfl, h0⟩ := BlockAlloc.get_fst_eq_some hr
      exact keyDepth_walk alloc key (h.get 0 alloc) hd₀ (P := []) (lookup_eq_some.mpr ⟨h0, rfl⟩)
        (by simpa using hk)
  refine ⟨?_, ?_⟩
  · unfold findEntry
    dsimp only
    split
    · exact hwalk
    · exact hwalk.of_sameEdges (sameEdges_allocKernels _ _ _)
  · rw [hfind]
    cases w.1 <;> simp [Option.elim, allocKernels_maxKeylen, hw]

variable [Add V]

/-- An ingest raises `m_max_keylen` to its key's length before it walks the key. -/
theorem keyDepth_processSnapshot (cfg : Config) (c : Host) (snap : SnapshotRecord V)
    (h : TrieInv db.trie db.numTrieEntries) (hd : KeyDepth db.trie db.maxKeylen) :
    KeyDepth (db.processSnapshot cfg c snap).trie (db.processSnapshot cfg c snap).maxKeylen := by
  unfold processSnapshot
  split_ifs
  · exact hd
  dsimp only
  generalize hdb₁ : { db with maxKeylen := max (buildKey cfg c snap).key.length db.maxKeylen } = db₁
  obtain ⟨hf, hm⟩ := keyDepth_findEntry (show TrieInv db₁.trie db₁.numTrieEntries from hdb₁ ▸ h)
    (show KeyDepth db₁.trie db₁.maxKeylen from hdb₁ ▸ hd.mono (le_max_right _ _))
    (show (buildKey cfg c snap).key.length ≤ db₁.maxKeylen from hdb₁ ▸ le_max_left _ _)
    (!c.isSignal)
  split
  · simpa only [hm] using hf
  · rw [updateKernels_frame]
    simp only [bumpCount, hm]
    exact hf.of_sameEdges (sameEdges_set rfl)

/-- In every state a database reaches, the nodes with an edge lie less than `m_max_keylen` bytes
down. -/
theorem Reachable.keyDepth (h : Reachable db) : KeyDepth db.trie db.maxKeylen := by
  induction h with
  | new =>
    exact (keyDepth_of_unallocated fun p => by
      simp [BlockAlloc.Allocated, BlockAlloc.new]).of_extends (BlockAlloc.extends_get _ _ _ _)
  | processSnapshot cfg c snap hr ih => exact keyDepth_processSnapshot cfg c snap hr.trieInv ih
  | setStopped _ _ ih | retire _ ih => exact ih
  | clear _ _ => exact keyDepth_of_unallocated (BlockAlloc.clear_allocated _)

end Ingest

section Fuel

variable (h : TrieInv db.trie db.numTrieEntries)
include h

/-- A node past the counter is fresh: `recursive_flush` writes nothing from it. -/
theorem recursiveFlush_fresh {e : Nat} (he : db.trie.Allocated e) (hN : db.numTrieEntries < e) :
    ∀ (F : Nat) (key : List UInt8), db.recursiveFlush F key (some e) = []
  | 0, _ => rfl
  | F + 1, key => by
    rw [recursiveFlush_succ]
    simp [node, h.fresh e he hN, TrieNode.init, child, recursiveFlush_none]

/-- Past the depth of the nodes with an edge, or past every id, more fuel writes nothing more: the
recursion makes no call deeper down. -/
theorem recursiveFlush_add_fuel (hd : KeyDepth db.trie M) :
    ∀ (F extra : Nat) (K key : List UInt8) (e : Nat), lookup db.trie K = some e →
      (M < K.length + F ∨ db.numTrieEntries < e + F) →
      db.recursiveFlush (F + extra) key (some e) = db.recursiveFlush F key (some e)
  | 0, extra, K, key, e, hK, hF => by
    have hN : db.numTrieEntries < e := hF.resolve_left fun hM => by
      have := hd.length_le hK
      omega
    have he := allocated_of_lookup hK
    rw [recursiveFlush_fresh h he hN, recursiveFlush_fresh h he hN]
  | F + 1, extra, K, key, e, hK, hF => by
    rw [Nat.add_right_comm, recursiveFlush_succ, recursiveFlush_succ]
    congr 1
    refine List.flatMap_congr fun i _ => ?_
    cases hc : child db.trie e (UInt8.ofNat i) with
    | none => simp only [recursiveFlush_none]
    | some c =>
      obtain ⟨hne, hcn, -, -⟩ := child_eq_some.mp hc
      have hlt := h.next_gt e _ (allocated_of_lookup hK) hne
      have hdep := hd K e _ hK hne
      obtain ⟨h0, hs⟩ := lookup_eq_some.mp hK
      refine recursiveFlush_add_fuel hd F extra _ _ c
        (lookup_eq_some.mpr ⟨h0, lookupFrom_concat.mpr ⟨e, hs, hc⟩⟩) ?_
      simp only [List.length_append, List.length_singleton]
      omega

/-- `recursive_flush` from the root with any fuel past `m_max_keylen` writes what `flush` does. -/
theorem recursiveFlush_eq_flush (hd : KeyDepth db.trie db.maxKeylen) {F : Nat}
    (hF : db.maxKeylen < F) :
    db.recursiveFlush F [] (db.trie.get TrieNode.init 0 false).1 = db.flush := by
  unfold flush
  rw [root_get]
  split_ifs with h0
  · have hK : lookup db.trie [] = some 0 := lookup_eq_some.mpr ⟨h0, rfl⟩
    rcases le_total F (db.numTrieEntries + 1) with hle | hle
    · obtain ⟨k, hk⟩ := Nat.exists_eq_add_of_le hle
      rw [hk, recursiveFlush_add_fuel h hd F k [] [] 0 hK (.inl (by simpa using hF))]
    · obtain ⟨k, hk⟩ := Nat.exists_eq_add_of_le hle
      rw [hk, recursiveFlush_add_fuel h hd _ k [] [] 0 hK (.inr (by omega))]
  · simp only [recursiveFlush_none]

end Fuel

variable [DoubleOps V] [Zero V] [Add V]

/-- In every state a database reaches, each non-zero `next[b]` of a node is a larger id, at most
`m_num_trie_entries`, and no id sits in two slots. So the path to a node is unique, `find_entry`
goes back to the node a key reaches, and `recursive_flush` calls itself at most `m_max_keylen`
levels deep: a node with an edge lies less than `m_max_keylen` bytes down, every node at most that
far, and any fuel past `m_max_keylen` writes what `flush` writes. -/
theorem trie_shape (h : Reachable db) :
    (∀ p b, db.trie.Allocated p → (db.node p).next b ≠ 0 →
      p < ((db.node p).next b).toNat ∧ ((db.node p).next b).toNat ≤ db.numTrieEntries) ∧
    (∀ p p' b b', db.trie.Allocated p → db.trie.Allocated p' → (db.node p).next b ≠ 0 →
      (db.node p).next b = (db.node p').next b' → p = p' ∧ b = b') ∧
    (∀ K K' x, lookup db.trie K = some x → lookup db.trie K' = some x → K = K') ∧
    (∀ K x alloc, lookup db.trie K = some x → db.findEntry K alloc = db.allocKernels x alloc) ∧
    (∀ K x b, lookup db.trie K = some x → (db.node x).next b ≠ 0 → K.length < db.maxKeylen) ∧
    (∀ K x, lookup db.trie K = some x → K.length ≤ db.maxKeylen) ∧
    ∀ F, db.maxKeylen < F → db.recursiveFlush F [] (db.trie.get TrieNode.init 0 false).1 = db.flush :=
  have hi := h.trieInv
  have hd := h.keyDepth
  ⟨fun p b hp hne => ⟨hi.next_gt p b hp hne, hi.next_le p b hp⟩, hi.next_inj,
    fun _ _ _ hK hK' => hi.lookup_injective hK hK',
    fun _ _ alloc hK => findEntry_of_lookup hK alloc,
    hd, fun _ _ hK => hd.length_le hK, fun _ hF => recursiveFlush_eq_flush hi hd hF⟩

theorem trie_shape_after_ingest :
    let db := (AggregateDB.new [] 0 0 : AggregateDB Float).processSnapshot ⟨0, [], [], 0⟩
      ⟨false, fun _ => none⟩ ⟨[⟨⟨5, 7⟩, []⟩], []⟩
    Reachable db ∧
    (∀ p b, db.trie.Allocated p → (db.node p).next b ≠ 0 →
      p < ((db.node p).next b).toNat ∧ ((db.node p).next b).toNat ≤ db.numTrieEntries) ∧
    (∀ p p' b b', db.trie.Allocated p → db.trie.Allocated p' → (db.node p).next b ≠ 0 →
      (db.node p).next b = (db.node p').next b' → p = p' ∧ b = b') ∧
    (∀ K K' x, lookup db.trie K = some x → lookup db.trie K' = some x → K = K') ∧
    (∀ K x alloc, lookup db.trie K = some x → db.findEntry K alloc = db.allocKernels x alloc) ∧
    (∀ K x b, lookup db.trie K = some x → (db.node x).next b ≠ 0 → K.length < db.maxKeylen) ∧
    (∀ K x, lookup db.trie K = some x → K.length ≤ db.maxKeylen) ∧
    ∀ F, db.maxKeylen < F → db.recursiveFlush F [] (db.trie.get TrieNode.init 0 false).1 = db.flush :=
  have h := Reachable.processSnapshot _ _ _ (Reachable.new [] 0 0)
  ⟨h, trie_shape h⟩

end AggregateDB

end CaliperAggregate
