import CaliperAggregate.Proofs.Kernels
import CaliperAggregate.Proofs.Trie

/-!
# What an ingest does to the trie

Every write an ingest makes to the trie keeps `TrieInv`: `get` brings in only blocks of fresh
nodes (`TrieInv.get`), `find_entry`'s new edge takes the next id, larger than every id in a slot
(`trieInv_addEdge`), and the writes of `k_id` and `count` leave the edges alone
(`TrieInv.set_node`). Up to the node it finds, an ingest only grows the trie (`TrieGrows`): no
block is released, no edge, `count` or `k_id` of an allocated node changes, and the nodes brought
in have neither count nor kernels. The walk ends at the node its key reaches (`walk_spec`,
`findEntry_spec`).

So every state a database reaches keeps `TrieInv` (`Reachable.trieInv`).
-/

namespace CaliperAggregate

@[simp] theorem toNat_uint32_ofNat (n : Nat) : (UInt32.ofNat n).toNat = n % 2 ^ 32 := by
  simp [UInt32.toNat, UInt32.ofNat]

theorem toNat_uint32_add (a b : UInt32) : (a + b).toNat = (a.toNat + b.toNat) % 2 ^ 32 :=
  BitVec.toNat_add _ _

theorem toNat_uint32_succ (c : UInt32) : (c + 1).toNat = (c.toNat + 1) % 2 ^ 32 :=
  toNat_uint32_add c 1

theorem eq_zero_of_toNat_uint32 {c : UInt32} (h : c.toNat = 0) : c = 0 :=
  UInt32.eq_of_toBitVec_eq (BitVec.eq_of_toNat_eq h)

/-- What a trie keeps of another: every allocated node stays allocated, with its edges. -/
structure EdgesKept (t t' : BlockAlloc TrieNode) : Prop where
  allocated : ∀ p, t.Allocated p → t'.Allocated p
  next : ∀ p b, t.Allocated p → (t.elems p).next b ≠ 0 → (t'.elems p).next b = (t.elems p).next b

/-- What the trie keeps while it grows: its edges, and each allocated node's `count` and `k_id`;
a node allocated since has no count and no kernels. -/
structure TrieGrows (t t' : BlockAlloc TrieNode) extends EdgesKept t t' : Prop where
  count : ∀ p, t.Allocated p → (t'.elems p).count = (t.elems p).count
  kId : ∀ p, t.Allocated p → (t'.elems p).kId = (t.elems p).kId
  fresh : ∀ p, t'.Allocated p → ¬ t.Allocated p →
    (t'.elems p).count = 0 ∧ (t'.elems p).kId = noKernels

section Grows

variable {t t' t'' : BlockAlloc TrieNode}

theorem EdgesKept.refl (t : BlockAlloc TrieNode) : EdgesKept t t :=
  ⟨fun _ h => h, fun _ _ _ _ => rfl⟩

theorem EdgesKept.trans (h₁ : EdgesKept t t') (h₂ : EdgesKept t' t'') : EdgesKept t t'' where
  allocated p hp := h₂.allocated p (h₁.allocated p hp)
  next p b hp hne :=
    (h₂.next p b (h₁.allocated p hp) (by rwa [h₁.next p b hp hne])).trans (h₁.next p b hp hne)

theorem TrieGrows.refl (t : BlockAlloc TrieNode) : TrieGrows t t :=
  ⟨.refl t, fun _ _ => rfl, fun _ _ => rfl, fun _ h h' => absurd h h'⟩

theorem TrieGrows.trans (h₁ : TrieGrows t t') (h₂ : TrieGrows t' t'') : TrieGrows t t'' where
  toEdgesKept := h₁.toEdgesKept.trans h₂.toEdgesKept
  count p hp := (h₂.count p (h₁.allocated p hp)).trans (h₁.count p hp)
  kId p hp := (h₂.kId p (h₁.allocated p hp)).trans (h₁.kId p hp)
  fresh p hp hn := by
    by_cases hp' : t'.Allocated p
    · rw [h₂.count p hp', h₂.kId p hp']
      exact h₁.fresh p hp' hn
    · exact h₂.fresh p hp hp'

theorem EdgesKept.child_some (h : EdgesKept t t') {e c : Nat} {b : UInt8} (he : t.Allocated e)
    (hc : child t e b = some c) : child t' e b = some c := by
  obtain ⟨hne, hcn, hb, hca⟩ := child_eq_some.mp hc
  exact child_eq_some.mpr
    ⟨by rwa [h.next e b he hne], by rw [h.next e b he hne, hcn], hb, h.allocated c hca⟩

/-- The paths of a trie stay as it grows. -/
theorem EdgesKept.lookupFrom_some (h : EdgesKept t t') {e x : Nat} (he : t.Allocated e) :
    ∀ {s : List UInt8}, lookupFrom t e s = some x → lookupFrom t' e s = some x
  | [], hs => hs
  | b :: bs, hs => by
    simp only [lookupFrom, Option.bind_eq_some] at hs ⊢
    obtain ⟨c, hc, hs⟩ := hs
    exact ⟨c, h.child_some he hc, h.lookupFrom_some (child_eq_some.mp hc).2.2.2 hs⟩

theorem EdgesKept.lookup_some (h : EdgesKept t t') {key : List UInt8} {x : Nat}
    (hx : lookup t key = some x) : lookup t' key = some x := by
  obtain ⟨h0, hs⟩ := lookup_eq_some.mp hx
  exact lookup_eq_some.mpr ⟨h.allocated 0 h0, h.lookupFrom_some h0 hs⟩

/-- A node of a grown trie with a count or kernels was there before, with them. -/
theorem TrieGrows.old_of_ne (h : TrieGrows t t') {e : Nat} (he : t'.Allocated e)
    (hne : (t'.elems e).count ≠ 0 ∨ (t'.elems e).kId ≠ noKernels) :
    t.Allocated e ∧ (t'.elems e).count = (t.elems e).count ∧ (t'.elems e).kId = (t.elems e).kId := by
  by_cases he₀ : t.Allocated e
  · exact ⟨he₀, h.count e he₀, h.kId e he₀⟩
  · obtain ⟨hc, hk⟩ := h.fresh e he he₀
    exact hne.elim (absurd hc) (absurd hk)

end Grows

section Inv

variable {t t' : BlockAlloc TrieNode} {N : Nat}

/-- A trie that keeps every allocated node of a tree and adds only fresh ones is a tree. -/
theorem TrieInv.of_extends (h : TrieInv t N) (hx : t.Extends TrieNode.init t') : TrieInv t' N := by
  -- a node of `t'` with an edge is an old one
  have hedge : ∀ p b, t'.Allocated p → (t'.elems p).next b ≠ 0 →
      t.Allocated p ∧ t'.elems p = t.elems p := fun p b hp hne => by
    by_cases hp' : t.Allocated p
    · exact ⟨hp', (hx.old p hp').2⟩
    · exact absurd (by rw [(hx.new p hp hp').1]; rfl) hne
  refine ⟨fun p hp => ?_, fun p b hp hne => ?_, fun p b hp => ?_,
    fun p p' b b' hp hp' hne heq => ?_, fun p hp hN => ?_, fun q hq hqN => ?_⟩
  · by_cases hp' : t.Allocated p
    exacts [h.block_le p hp', (hx.new p hp hp').2]
  · obtain ⟨hp, he⟩ := hedge p b hp hne
    rw [he] at hne ⊢
    exact h.next_gt p b hp hne
  · by_cases hne : (t'.elems p).next b = 0
    · simp [hne]
    · obtain ⟨hp, he⟩ := hedge p b hp hne
      rw [he]
      exact h.next_le p b hp
  · obtain ⟨hp, he⟩ := hedge p b hp hne
    obtain ⟨hp', he'⟩ := hedge p' b' hp' (heq ▸ hne)
    rw [he, he'] at heq
    exact h.next_inj p p' b b' hp hp' (he ▸ hne) heq
  · by_cases hp' : t.Allocated p
    · rw [(hx.old p hp').2]
      exact h.fresh p hp' hN
    · exact (hx.new p hp hp').1
  · obtain ⟨p, b, hp, hpq⟩ := h.filled q hq hqN
    exact ⟨p, b, (hx.old p hp).1, by rw [(hx.old p hp).2, hpq]⟩

theorem TrieGrows.of_extends (hx : t.Extends TrieNode.init t') : TrieGrows t t' where
  allocated p hp := (hx.old p hp).1
  next p b hp _ := by rw [(hx.old p hp).2]
  count p hp := by rw [(hx.old p hp).2]
  kId p hp := by rw [(hx.old p hp).2]
  fresh p hp hn := by rw [(hx.new p hp hn).1]; exact ⟨rfl, rfl⟩

/-- `get` keeps the invariant: the block it brings in holds fresh nodes. -/
theorem TrieInv.get (h : TrieInv t N) (id : Nat) (alloc : Bool) :
    TrieInv (t.get TrieNode.init id alloc).2 N :=
  h.of_extends (t.extends_get _ id alloc)

theorem TrieGrows.get (t : BlockAlloc TrieNode) (id : Nat) (alloc : Bool) :
    TrieGrows t (t.get TrieNode.init id alloc).2 :=
  .of_extends (t.extends_get _ id alloc)

/-- The next id fits in a `uint32_t`. -/
theorem TrieInv.toNat_ofNat_succ (h : TrieInv t N) : (UInt32.ofNat (N + 1)).toNat = N + 1 := by
  have := h.numTrieEntries_lt
  rw [toNat_uint32_ofNat, Nat.mod_eq_of_lt (by omega)]

/-- A write of a node's `k_id` or `count`, for a node with an id up to `N`, keeps the
invariant. -/
theorem TrieInv.set_node (h : TrieInv t N) {e : Nat} {n : TrieNode} (heN : e ≤ N)
    (hn : n.next = (t.elems e).next) : TrieInv (t.set e n) N := by
  have hnext : ∀ p, ((t.set e n).elems p).next = (t.elems p).next := fun p => by
    by_cases hp : p = e
    · rw [BlockAlloc.set_elems, if_pos hp, hn, hp]
    · rw [BlockAlloc.set_elems, if_neg hp]
  refine ⟨h.block_le, fun p b hp => ?_, fun p b hp => ?_, fun p p' b b' hp hp' => ?_,
    fun p hp hN => ?_, fun q hq hqN => ?_⟩
  · simpa only [hnext] using h.next_gt p b hp
  · simpa only [hnext] using h.next_le p b hp
  · simpa only [hnext] using h.next_inj p p' b b' hp hp'
  · rw [BlockAlloc.set_elems, if_neg (by omega)]
    exact h.fresh p hp hN
  · simpa only [hnext] using h.filled q hq hqN

/-- Writing a node's `k_id` or `count` changes no path. -/
theorem lookup_set_node (t : BlockAlloc TrieNode) {e : Nat} {n : TrieNode}
    (hn : n.next = (t.elems e).next) (key : List UInt8) : lookup (t.set e n) key = lookup t key := by
  have hchild : ∀ p b, child (t.set e n) p b = child t p b := fun p b => by
    have hnext : ((t.set e n).elems p).next = (t.elems p).next := by
      by_cases hp : p = e
      · rw [BlockAlloc.set_elems, if_pos hp, hn, hp]
      · rw [BlockAlloc.set_elems, if_neg hp]
    simp only [child, hnext, BlockAlloc.get_fst, BlockAlloc.set_allocated]
  have hfrom : ∀ p (s : List UInt8), lookupFrom (t.set e n) p s = lookupFrom t p s := fun p s => by
    induction s generalizing p with
    | nil => rfl
    | cons b bs ih => simp only [lookupFrom, hchild, ih]
  simp only [lookup, hfrom, BlockAlloc.get_fst, BlockAlloc.set_allocated]

/-- Two keys that reach one node are the same key. -/
theorem TrieInv.lookup_injective (h : TrieInv t N) {key key' : List UInt8} {x : Nat}
    (hk : lookup t key = some x) (hk' : lookup t key' = some x) : key = key' :=
  h.lookupFrom_injective (lookup_eq_some.mp hk).1 x (lookup_eq_some.mp hk).2
    (lookup_eq_some.mp hk').2

/-- A trie with no block allocated is a tree with no ids. -/
theorem TrieInv.of_unallocated (h : ∀ p, ¬ t.Allocated p) : TrieInv t 0 :=
  ⟨fun p hp => absurd hp (h p), fun p _ hp => absurd hp (h p), fun p _ hp => absurd hp (h p),
    fun p _ _ _ hp => absurd hp (h p), fun p hp => absurd hp (h p), fun _ hq hqN => by omega⟩

end Inv

namespace AggregateDB

variable {V : Type} {db : AggregateDB V} {e : Nat} {b : UInt8}

theorem addEdge_trie (db : AggregateDB V) (e : Nat) (b : UInt8) :
    (db.addEdge e b).trie = db.trie.set e { db.node e with
      next := Function.update (db.node e).next b (UInt32.ofNat (db.numTrieEntries + 1)) } :=
  rfl

/-- The edges after `find_entry` gives node `e` the edge `b`. -/
theorem next_addEdge (db : AggregateDB V) (e : Nat) (b : UInt8) (p : Nat) (b' : UInt8) :
    ((db.addEdge e b).trie.elems p).next b' =
      if p = e ∧ b' = b then UInt32.ofNat (db.numTrieEntries + 1) else (db.trie.elems p).next b' := by
  by_cases hp : p = e <;> by_cases hb : b' = b <;> simp [addEdge_trie, node, hp, hb]

/-- The new edge takes the next id, larger than every id in a slot. -/
theorem trieInv_addEdge (h : TrieInv db.trie db.numTrieEntries) (he : db.trie.Allocated e)
    (heN : e ≤ db.numTrieEntries) (hb : (db.node e).next b = 0) :
    TrieInv (db.addEdge e b).trie (db.numTrieEntries + 1) := by
  have hv := h.toNat_ofNat_succ
  refine ⟨h.block_le, fun p b' hp hne => ?_, fun p b' hp => ?_,
    fun p p' b₁ b₂ hp hp' hne heq => ?_, fun p hp hN => ?_, fun q hq hqN => ?_⟩
  · rw [next_addEdge] at hne ⊢
    split_ifs at hne ⊢ with hc
    · rw [hv, hc.1]
      omega
    · exact h.next_gt p b' hp hne
  · rw [next_addEdge]
    split_ifs
    · rw [hv]
    · exact (h.next_le p b' hp).trans (Nat.le_succ _)
  · rw [next_addEdge, next_addEdge] at heq
    rw [next_addEdge] at hne
    split_ifs at heq hne with h₁ h₂ h₂
    · exact ⟨h₁.1.trans h₂.1.symm, h₁.2.trans h₂.2.symm⟩
    · have := h.next_le p' b₂ hp'
      rw [← heq, hv] at this
      omega
    · have := h.next_le p b₁ hp
      rw [heq, hv] at this
      omega
    · exact h.next_inj p p' b₁ b₂ hp hp' hne heq
  · rw [addEdge_trie, BlockAlloc.set_elems, if_neg (by omega)]
    exact h.fresh p hp (by omega)
  · by_cases hqN' : q = db.numTrieEntries + 1
    · exact ⟨e, b, he, by rw [next_addEdge, if_pos ⟨rfl, rfl⟩, hv, hqN']⟩
    · obtain ⟨p, b', hp, hpq⟩ := h.filled q hq (by omega)
      refine ⟨p, b', hp, ?_⟩
      rw [next_addEdge, if_neg, hpq]
      rintro ⟨rfl, rfl⟩
      rw [show (db.trie.elems p).next b' = 0 from hb] at hpq
      simp at hpq
      omega

theorem trieGrows_addEdge (hb : (db.node e).next b = 0) : TrieGrows db.trie (db.addEdge e b).trie where
  allocated _ hp := hp
  next p b' _ hne := by
    rw [next_addEdge, if_neg]
    rintro ⟨rfl, rfl⟩
    exact hne hb
  count p _ := by by_cases hp : p = e <;> simp [addEdge_trie, node, hp]
  kId p _ := by by_cases hp : p = e <;> simp [addEdge_trie, node, hp]
  fresh _ hp hn := absurd hp hn

/-- `db'` is `db` with only its trie and trie counter changed: the trie grown, and still a
tree. -/
structure TrieGrown (db db' : AggregateDB V) : Prop where
  frame : ∃ t N, db' = { db with trie := t, numTrieEntries := N }
  inv : TrieInv db'.trie db'.numTrieEntries
  grows : TrieGrows db.trie db'.trie

theorem TrieGrown.trans {db₁ db₂ db₃ : AggregateDB V} (h₁ : db₁.TrieGrown db₂)
    (h₂ : db₂.TrieGrown db₃) : db₁.TrieGrown db₃ := by
  obtain ⟨t₂, N₂, rfl⟩ := h₁.frame
  obtain ⟨t₃, N₃, rfl⟩ := h₂.frame
  exact ⟨⟨t₃, N₃, rfl⟩, h₂.inv, h₁.grows.trans h₂.grows⟩

theorem trieGrown_get (h : TrieInv db.trie db.numTrieEntries) (id : Nat) (alloc : Bool) :
    db.TrieGrown { db with trie := (db.trie.get TrieNode.init id alloc).2 } :=
  ⟨⟨_, _, rfl⟩, h.get id alloc, TrieGrows.get db.trie id alloc⟩

/-- One step of the walk grows the trie and returns the child along `b`. -/
theorem walkStep_spec (h : TrieInv db.trie db.numTrieEntries) (he : db.trie.Allocated e)
    (heN : e ≤ db.numTrieEntries) (alloc : Bool) (b : UInt8) :
    db.TrieGrown (db.walkStep alloc e b).2 ∧
      ∀ c, (db.walkStep alloc e b).1 = some c → child (db.walkStep alloc e b).2.trie e b = some c := by
  -- the database once node `e` has an edge along `b`
  obtain ⟨db₁, hdb₁, hg₁, hne⟩ : ∃ db₁, (if (db.node e).next b = 0 then db.addEdge e b else db) = db₁ ∧
      db.TrieGrown db₁ ∧ (db₁.node e).next b ≠ 0 := by
    split_ifs with hb
    · refine ⟨_, rfl, ⟨⟨_, _, rfl⟩, trieInv_addEdge h he heN hb, trieGrows_addEdge hb⟩, ?_⟩
      rw [node, next_addEdge, if_pos ⟨rfl, rfl⟩]
      intro h0
      have := congrArg UInt32.toNat h0
      rw [h.toNat_ofNat_succ] at this
      exact Nat.succ_ne_zero _ this
    · exact ⟨db, rfl, ⟨⟨_, _, rfl⟩, h, .refl _⟩, hb⟩
  have he₁ := hg₁.grows.allocated e he
  simp only [walkStep, hdb₁]
  refine ⟨hg₁.trans (trieGrown_get hg₁.inv _ alloc), fun c hc => ?_⟩
  obtain ⟨rfl, hca⟩ := BlockAlloc.get_fst_eq_some hc
  have hnext : (db₁.trie.get TrieNode.init ((db₁.node e).next b).toNat alloc).2.elems e =
      db₁.trie.elems e := BlockAlloc.elems_get_snd he₁
  exact child_eq_some.mpr ⟨by rwa [hnext], by rw [hnext]; rfl,
    (hg₁.inv.get _ alloc).block_le _ hca, hca⟩

/-- Along a path that exists, the walk writes nothing and ends where the path does. -/
theorem walk_of_lookupFrom (alloc : Bool) : ∀ (key : List UInt8) {db : AggregateDB V} {e x : Nat},
    lookupFrom db.trie e key = some x → walk alloc db (some e) key = (some x, db)
  | [], _, _, _, hx => by cases hx; rfl
  | b :: bs, db, e, x, hx => by
    simp only [lookupFrom, Option.bind_eq_some] at hx
    obtain ⟨c, hc, hx⟩ := hx
    obtain ⟨hne, hcn, hb, hca⟩ := child_eq_some.mp hc
    have hstep : db.walkStep alloc e b = (some c, db) := by
      simp only [walkStep, node, if_neg hne, hcn, BlockAlloc.get_allocated hca hb]
    simp only [walk, hstep]
    exact walk_of_lookupFrom alloc bs hx

/-- The walk from `e` along `key` grows the trie and ends at the node `key` reaches from `e`. -/
theorem walk_spec (alloc : Bool) : ∀ (key : List UInt8) {db : AggregateDB V} {e : Nat},
    TrieInv db.trie db.numTrieEntries → db.trie.Allocated e → e ≤ db.numTrieEntries →
    db.TrieGrown (walk alloc db (some e) key).2 ∧ ∀ x, (walk alloc db (some e) key).1 = some x →
      lookupFrom (walk alloc db (some e) key).2.trie e key = some x
  | [], _, _, h, _, _ => ⟨⟨⟨_, _, rfl⟩, h, .refl _⟩, fun _ hx => hx⟩
  | b :: bs, db, e, h, he, heN => by
    obtain ⟨hg, hc⟩ := walkStep_spec h he heN alloc b
    simp only [walk]
    cases hr : (db.walkStep alloc e b).1 with
    | none => exact ⟨by simpa only [walk] using hg, fun _ hx => by simp [walk] at hx⟩
    | some c =>
      have hch := hc c hr
      have hca := (child_eq_some.mp hch).2.2.2
      obtain ⟨hg', hf⟩ := walk_spec alloc bs hg.inv hca
        (hg.inv.child_le (hg.grows.allocated e he) hch)
      refine ⟨hg.trans hg', fun x hx => ?_⟩
      simp only [lookupFrom, hg'.grows.child_some (hg.grows.allocated e he) hch, Option.some_bind]
      exact hf x hx

variable [DoubleOps V] [Zero V]

/-- `find_entry` up to the kernels: a walk from the root that grows the trie, then `allocKernels`
at the node `key` reaches. -/
theorem findEntry_spec (h : TrieInv db.trie db.numTrieEntries) (key : List UInt8) (alloc : Bool) :
    ∃ w : Option Nat × AggregateDB V, db.TrieGrown w.2 ∧
      (∀ x, w.1 = some x → lookup w.2.trie key = some x) ∧
      db.findEntry key alloc = w.1.elim (none, w.2) fun x => w.2.allocKernels x alloc := by
  have hg₀ := trieGrown_get h 0 alloc
  have hw : ∀ r, (db.trie.get TrieNode.init 0 alloc).1 = r →
      db.TrieGrown (walk alloc { db with trie := (db.trie.get TrieNode.init 0 alloc).2 } r key).2 ∧
      ∀ x, (walk alloc { db with trie := (db.trie.get TrieNode.init 0 alloc).2 } r key).1 = some x →
        lookup (walk alloc { db with trie := (db.trie.get TrieNode.init 0 alloc).2 } r key).2.trie
          key = some x
    | none, _ => ⟨by simpa only [walk] using hg₀, fun _ hx => by simp [walk] at hx⟩
    | some r, hr => by
      obtain ⟨rfl, h0⟩ := BlockAlloc.get_fst_eq_some hr
      obtain ⟨hg, hf⟩ := walk_spec alloc key hg₀.inv h0 (Nat.zero_le _)
      exact ⟨hg₀.trans hg, fun x hx => lookup_eq_some.mpr ⟨hg.grows.allocated 0 h0, hf x hx⟩⟩
  obtain ⟨hg, hf⟩ := hw _ rfl
  refine ⟨_, hg, hf, ?_⟩
  unfold findEntry
  dsimp only
  split <;> next hr => rw [hr]; rfl

/-- Along a key that reaches a node, `find_entry` writes no edge and goes on to the node's
kernels. -/
theorem findEntry_of_lookup {key : List UInt8} {x : Nat} (hx : lookup db.trie key = some x)
    (alloc : Bool) : db.findEntry key alloc = db.allocKernels x alloc := by
  obtain ⟨h0, hs⟩ := lookup_eq_some.mp hx
  simp only [findEntry, BlockAlloc.get_allocated h0 (by decide)]
  rw [walk_of_lookupFrom alloc key hs]

variable [Add V]

/-- An ingest keeps the trie a tree. -/
theorem trieInv_processSnapshot (cfg : Config) (c : Host) (snap : SnapshotRecord V)
    (h : TrieInv db.trie db.numTrieEntries) :
    TrieInv (db.processSnapshot cfg c snap).trie (db.processSnapshot cfg c snap).numTrieEntries := by
  unfold processSnapshot
  split_ifs
  · exact h
  dsimp only
  generalize hdb₁ : { db with maxKeylen := max (buildKey cfg c snap).key.length db.maxKeylen } = db₁
  obtain ⟨w, hg, hf, hfind⟩ :=
    findEntry_spec (show TrieInv db₁.trie db₁.numTrieEntries from hdb₁ ▸ h) _ (!c.isSignal)
  rw [hfind]
  cases hw : w.1 with
  | none => exact hg.inv
  | some x =>
    have hxN := hg.inv.lookup_le (hf x hw)
    dsimp only [Option.elim]
    rcases allocKernels_cases w.2 x (!c.isSignal) with ⟨-, ha⟩ | ⟨-, -, ok, ks, -, -, ha⟩
    · rw [ha]
      dsimp only
      rw [updateKernels_frame]
      exact hg.inv.set_node hxN rfl
    · rw [ha]
      cases ok
      · rw [if_neg Bool.false_ne_true]
        exact hg.inv
      · rw [if_pos rfl]
        dsimp only
        rw [updateKernels_frame]
        have h₁ : TrieInv (w.2.trie.set x { w.2.node x with
            kId := UInt32.ofNat (w.2.numKernelEntries + 1) }) w.2.numTrieEntries :=
          hg.inv.set_node hxN rfl
        exact h₁.set_node hxN rfl

/-- The states a database reaches: built by `AggregateDB(c)`, then changed by ingests, by
`flush_cb`'s stores of `m_stopped` and its `clear()`, and by `retire`'s store of `m_retired`. -/
inductive Reachable : AggregateDB V → Prop
  | new (aggr : List UInt64) (trieBlocks kernelBlocks : Nat) :
      Reachable (AggregateDB.new aggr trieBlocks kernelBlocks)
  | processSnapshot {db : AggregateDB V} (cfg : Config) (c : Host) (snap : SnapshotRecord V) :
      Reachable db → Reachable (db.processSnapshot cfg c snap)
  | setStopped {db : AggregateDB V} (b : Bool) : Reachable db → Reachable { db with stopped := b }
  | clear {db : AggregateDB V} : Reachable db → Reachable db.clear
  | retire {db : AggregateDB V} : Reachable db → Reachable { db with retired := true }

/-- Every state a database reaches keeps its trie a tree. -/
theorem Reachable.trieInv (h : Reachable db) : TrieInv db.trie db.numTrieEntries := by
  induction h with
  | new => exact (TrieInv.of_unallocated fun p => by simp [BlockAlloc.Allocated, BlockAlloc.new]).get 0 true
  | processSnapshot cfg c snap _ ih => exact trieInv_processSnapshot cfg c snap ih
  | setStopped _ _ ih | retire _ ih => exact ih
  | clear _ _ => exact TrieInv.of_unallocated (BlockAlloc.clear_allocated _)

end AggregateDB

end CaliperAggregate
