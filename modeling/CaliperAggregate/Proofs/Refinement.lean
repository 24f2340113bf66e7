import CaliperAggregate.Proofs.TrieSteps

/-!
# Ingesting refines aggregation by key

What aggregation is for, said over the snapshots a run accepted: per key, how many of them had
it (`keyCount`), and per aggregated attribute a fresh kernel folded with `add`, in ingest order,
over the values they carry (`keyKernel`). `Refines` says that a database holds exactly this: the
node each accepted key reaches counts its snapshots, modulo `2^32` as `count` is a `uint32_t`, and
has the folded kernels; no other node has a count or kernels.

`KernelInv` keeps the kernels of two nodes apart: each node's kernels sit in an allocated range
below the kernel counter, the ranges of two nodes do not meet, and the kernels past the counter
are fresh. The counter is a `size_t` whose ids `find_entry` casts to `uint32_t`, so this holds
while it stays below `2^32 - 1`.

A call either drops its snapshot, counting it in `m_num_dropped` and changing no node's count, or
accepts it, counting it at the node its key reaches and at no other (`processSnapshot_step`).
Over a run from construction or `clear()`, the database refines the snapshots it accepted
(`runCalls_refines`). A key accepted `2^32` times has count 0 (`count_wraps`).
-/

namespace CaliperAggregate

section Spec

variable {V : Type}

/-- Reference definition, from the specification: the number of accepted snapshots whose key is `K`,
each accepted snapshot given as its key and its immediate entries, in ingest order. -/
def keyCount (acc : List (List UInt8 × List (Immediate V))) (K : List UInt8) : Nat :=
  (acc.filter fun r => r.1 = K).length

theorem keyCount_append (acc : List (List UInt8 × List (Immediate V))) (K : List UInt8)
    (imms : List (Immediate V)) (K' : List UInt8) :
    keyCount (acc ++ [(K, imms)]) K' = keyCount acc K' + if K = K' then 1 else 0 := by
  by_cases h : K = K' <;> simp [keyCount, List.filter_append, h]

theorem keyCount_replicate (n : Nat) (K : List UInt8) (imms : List (Immediate V)) :
    keyCount (List.replicate n (K, imms)) K = n := by
  simp [keyCount]

variable [DoubleOps V] [Zero V] [Add V]

/-- Reference definition, from the specification: a fresh kernel folded with `add`, in ingest order,
over the values of attribute `x` that the accepted snapshots whose key is `K` carry. -/
def keyKernel (x : UInt64) (acc : List (List UInt8 × List (Immediate V))) (K : List UInt8) :
    AggregateKernel V :=
  ((acc.filter fun r => r.1 = K).flatMap fun r => attrDoubles x r.2).foldl AggregateKernel.add
    AggregateKernel.init

theorem keyKernel_append (x : UInt64) (acc : List (List UInt8 × List (Immediate V)))
    (K : List UInt8) (imms : List (Immediate V)) (K' : List UInt8) :
    keyKernel x (acc ++ [(K, imms)]) K' = if K = K' then
      (attrDoubles x imms).foldl AggregateKernel.add (keyKernel x acc K')
    else keyKernel x acc K' := by
  by_cases h : K = K' <;> simp [keyKernel, List.filter_append, h]

theorem keyKernel_of_keyCount {x : UInt64} {acc : List (List UInt8 × List (Immediate V))}
    {K : List UInt8} (h : keyCount acc K = 0) : keyKernel x acc K = AggregateKernel.init := by
  rw [keyKernel, List.length_eq_zero.mp h]
  rfl

end Spec

namespace AggregateDB

variable {V : Type}

/-- The count the database holds at node `p`: its `count` if its block is allocated, else none. -/
def countOf (db : AggregateDB V) (p : Nat) : Nat :=
  if db.trie.Allocated p then (db.node p).count.toNat else 0

/-- Growing the trie changes no count a database holds. -/
theorem countOf_trieGrown {d d' : AggregateDB V} (hg : d.TrieGrown d') :
    d'.countOf = d.countOf := by
  obtain ⟨t, N, rfl⟩ := hg.frame
  funext p
  simp only [countOf, node]
  by_cases hp : d.trie.Allocated p
  · rw [if_pos (hg.grows.allocated p hp), if_pos hp, hg.grows.count p hp]
  · rw [if_neg hp]
    split_ifs with hp'
    · rw [(hg.grows.fresh p hp' hp).1]
      rfl
    · rfl

theorem lookup_bumpCount (db : AggregateDB V) (e : Nat) (key : List UInt8) :
    lookup (db.bumpCount e).trie key = lookup db.trie key :=
  lookup_set_node _ (by rfl) key

theorem count_bumpCount (db : AggregateDB V) (e : Nat) :
    ((db.bumpCount e).node e).count.toNat = ((db.node e).count.toNat + 1) % 2 ^ 32 := by
  simp only [bumpCount, node, BlockAlloc.set_elems, ↓reduceIte, toNat_uint32_succ]

variable [DoubleOps V] [Zero V] [Add V]

/-- The database holds what the accepted snapshots `acc` say: the node each accepted key reaches
counts them, modulo `2^32`, and, when there are aggregated attributes, has kernels, each folded
over its attribute's values; no other allocated node has a count or kernels. -/
structure Refines (db : AggregateDB V) (acc : List (List UInt8 × List (Immediate V))) : Prop where
  holds : ∀ K, 0 < keyCount acc K → ∃ e, lookup db.trie K = some e ∧
    (db.node e).count.toNat = keyCount acc K % 2 ^ 32 ∧
    (0 < db.aggrAttributes.length → (db.node e).kId ≠ noKernels) ∧
    ∀ a < db.aggrAttributes.length,
      db.kernel ((db.node e).kId.toNat + a) = keyKernel (db.aggrAttributes.getD a 0) acc K
  only : ∀ e, db.trie.Allocated e → ((db.node e).count ≠ 0 ∨ (db.node e).kId ≠ noKernels) →
    ∃ K, 0 < keyCount acc K ∧ lookup db.trie K = some e

/-- Where the kernels sit: each node's in an allocated range below the kernel counter, the ranges
of two nodes apart, and the kernels past the counter fresh. -/
structure KernelInv (db : AggregateDB V) : Prop where
  block_le : ∀ j, db.kernels.Allocated j → j / entriesPerBlock < maxBlocks
  range : ∀ e, db.trie.Allocated e → (db.node e).kId ≠ noKernels →
    (db.node e).kId.toNat + db.aggrAttributes.length ≤ db.numKernelEntries + 1 ∧
    ∀ a < db.aggrAttributes.length, db.kernels.Allocated ((db.node e).kId.toNat + a)
  apart : ∀ e e' a a', db.trie.Allocated e → db.trie.Allocated e' →
    (db.node e).kId ≠ noKernels → (db.node e').kId ≠ noKernels →
    a < db.aggrAttributes.length → a' < db.aggrAttributes.length →
    (db.node e).kId.toNat + a = (db.node e').kId.toNat + a' → e = e'
  fresh : ∀ j, db.kernels.Allocated j → db.numKernelEntries < j →
    db.kernel j = AggregateKernel.init

/-- What a run keeps between ingests, `acc` being the snapshots it accepted. -/
structure RunInv (db : AggregateDB V) (acc : List (List UInt8 × List (Immediate V))) : Prop where
  trie : TrieInv db.trie db.numTrieEntries
  kernels : KernelInv db
  refines : Refines db acc

section Steps

variable {d d' : AggregateDB V} {acc : List (List UInt8 × List (Immediate V))}

/-- What a run keeps reads only the trie, the kernels, the two counters of ids and the aggregated
attributes. -/
theorem RunInv.congr (h : RunInv d acc) (ht : d'.trie = d.trie) (hk : d'.kernels = d.kernels)
    (hN : d'.numTrieEntries = d.numTrieEntries) (hNk : d'.numKernelEntries = d.numKernelEntries)
    (hA : d'.aggrAttributes = d.aggrAttributes) : RunInv d' acc := by
  obtain ⟨⟩ := d
  obtain ⟨⟩ := d'
  simp only at ht hk hN hNk hA
  subst ht hk hN hNk hA
  exact ⟨h.trie, ⟨h.kernels.1, h.kernels.2, h.kernels.3, h.kernels.4⟩,
    ⟨h.refines.1, h.refines.2⟩⟩

/-- The node a key reaches that no accepted snapshot had has neither count nor kernels. -/
theorem RunInv.node_of_keyCount (h : RunInv d acc) {key : List UInt8} {e : Nat}
    (he : lookup d.trie key = some e) (hk : keyCount acc key = 0) :
    (d.node e).count = 0 ∧ (d.node e).kId = noKernels := by
  by_contra hne
  obtain ⟨K, hK, hKe⟩ := h.refines.only e (allocated_of_lookup he) (not_and_or.mp hne)
  rw [h.trie.lookup_injective hKe he] at hK
  omega

/-- Growing the trie keeps what a run keeps: the new nodes have neither count nor kernels. -/
theorem RunInv.trieGrown (h : RunInv d acc) (hg : d.TrieGrown d') : RunInv d' acc := by
  obtain ⟨t, N, rfl⟩ := hg.frame
  have g : TrieGrows d.trie t := hg.grows
  refine ⟨hg.inv, ⟨h.kernels.block_le, fun e he hk => ?_, fun e e' a a' he he' hk hk' => ?_,
    h.kernels.fresh⟩, ⟨fun K hK => ?_, fun e he hne => ?_⟩⟩
  · obtain ⟨he₀, -, hkid⟩ := g.old_of_ne he (.inr hk)
    simp only [node] at hk ⊢
    rw [hkid] at hk ⊢
    exact h.kernels.range e he₀ hk
  · obtain ⟨he₀, -, hkid⟩ := g.old_of_ne he (.inr hk)
    obtain ⟨he₀', -, hkid'⟩ := g.old_of_ne he' (.inr hk')
    simp only [node, hkid, hkid'] at hk hk' ⊢
    exact h.kernels.apart e e' a a' he₀ he₀' hk hk'
  · obtain ⟨e, hKe, hc, hkid, hker⟩ := h.refines.holds K hK
    have he := allocated_of_lookup hKe
    refine ⟨e, g.lookup_some hKe, ?_, ?_, ?_⟩ <;> simp only [node, kernel, g.count e he, g.kId e he]
    exacts [hc, hkid, hker]
  · obtain ⟨he₀, hc, hkid⟩ := g.old_of_ne he hne
    simp only [node] at hne
    rw [hc, hkid] at hne
    obtain ⟨K, hK, hKe⟩ := h.refines.only e he₀ hne
    exact ⟨K, hK, g.lookup_some hKe⟩

/-- Fetching kernels, and advancing the counter past them, keeps what a run keeps. -/
theorem RunInv.extendKernels (h : RunInv d acc) {ks : BlockAlloc (AggregateKernel V)}
    (hks : d.kernels.Extends AggregateKernel.init ks) {N : Nat} (hN : d.numKernelEntries ≤ N) :
    RunInv { d with kernels := ks, numKernelEntries := N } acc := by
  refine ⟨h.trie, ⟨fun j hj => ?_, fun e he hk => ?_, h.kernels.apart, fun j hj hjN => ?_⟩,
    ⟨fun K hK => ?_, h.refines.only⟩⟩
  · by_cases hj₀ : d.kernels.Allocated j
    exacts [h.kernels.block_le j hj₀, (hks.new j hj hj₀).2]
  · obtain ⟨hr, ha⟩ := h.kernels.range e he hk
    exact ⟨hr.trans (Nat.add_le_add_right hN 1), fun a hA => (hks.old _ (ha a hA)).1⟩
  · by_cases hj₀ : d.kernels.Allocated j
    · simp only [kernel]
      rw [(hks.old j hj₀).2]
      exact h.kernels.fresh j hj₀ (lt_of_le_of_lt hN hjN)
    · exact (hks.new j hj hj₀).1
  · obtain ⟨e, hKe, hc, hkid, hker⟩ := h.refines.holds K hK
    have he := allocated_of_lookup hKe
    refine ⟨e, hKe, hc, hkid, fun a ha => ?_⟩
    have hka := (h.kernels.range e he (hkid (Nat.zero_lt_of_lt ha))).2 a ha
    show ks.elems ((d.node e).kId.toNat + a) = _
    rw [(hks.old _ hka).2]
    exact hker a ha

/-- What `allocKernels` leaves at node `e`, the node `key` reaches in `d`, before an accepted
snapshot's count and values are added: in the trie at most `e`'s `k_id` changed, to `k`, the
kernels only grew, and `e`'s kernels are allocated, apart from every other node's, and hold what
the accepted snapshots say. -/
structure Prepared (d d₃ : AggregateDB V) (acc : List (List UInt8 × List (Immediate V)))
    (key : List UInt8) (e : Nat) (k : UInt32) : Prop where
  lookup_eq : lookup d.trie key = some e
  trie_eq : d₃.trie = d.trie.set e { d.node e with kId := k }
  kernels_extend : d.kernels.Extends AggregateKernel.init d₃.kernels
  aggr_eq : d₃.aggrAttributes = d.aggrAttributes
  numTrieEntries_eq : d₃.numTrieEntries = d.numTrieEntries
  numDropped_eq : d₃.numDropped = d.numDropped
  numKernelEntries_le : d.numKernelEntries ≤ d₃.numKernelEntries
  kId_ne : 0 < d.aggrAttributes.length → k ≠ noKernels
  range : k ≠ noKernels → k.toNat + d.aggrAttributes.length ≤ d₃.numKernelEntries + 1 ∧
    ∀ a < d.aggrAttributes.length, d₃.kernels.Allocated (k.toNat + a)
  apart : ∀ e' a a', e' ≠ e → d.trie.Allocated e' → (d.node e').kId ≠ noKernels →
    a < d.aggrAttributes.length → a' < d.aggrAttributes.length →
    k.toNat + a ≠ (d.node e').kId.toNat + a'
  kernel_eq : ∀ a < d.aggrAttributes.length,
    d₃.kernel (k.toNat + a) = keyKernel (d.aggrAttributes.getD a 0) acc key
  count_eq : (d.node e).count.toNat = keyCount acc key % 2 ^ 32
  fresh : ∀ j, d₃.kernels.Allocated j → d₃.numKernelEntries < j →
    d₃.kernel j = AggregateKernel.init

/-- The count at the node `key` reaches, and, when there are aggregated attributes, its kernels,
are what the accepted snapshots say. -/
theorem RunInv.count_kernels (h : RunInv d acc) {key : List UInt8} {e : Nat}
    (he : lookup d.trie key = some e) :
    (d.node e).count.toNat = keyCount acc key % 2 ^ 32 ∧
      ((d.node e).kId ≠ noKernels → ∀ a < d.aggrAttributes.length,
        d.kernel ((d.node e).kId.toNat + a) = keyKernel (d.aggrAttributes.getD a 0) acc key) := by
  rcases Nat.eq_zero_or_pos (keyCount acc key) with hk | hk
  · obtain ⟨hc, hkid⟩ := h.node_of_keyCount he hk
    exact ⟨by rw [hc, hk]; rfl, fun hne => absurd hkid hne⟩
  · obtain ⟨e', he', hc, -, hker⟩ := h.refines.holds key hk
    obtain rfl : e = e' := Option.some.inj (he.symm.trans he')
    exact ⟨hc, fun _ => hker⟩

/-- A node with kernels, or no aggregated attributes: `allocKernels` changes nothing. -/
theorem RunInv.prepared_noop (h : RunInv d acc) {key : List UInt8} {e : Nat}
    (he : lookup d.trie key = some e)
    (hk : (d.node e).kId ≠ noKernels ∨ d.aggrAttributes.length = 0) :
    Prepared d d acc key e (d.node e).kId := by
  have he₀ := allocated_of_lookup he
  have hA : 0 < d.aggrAttributes.length → (d.node e).kId ≠ noKernels := fun hA =>
    hk.resolve_right (by omega)
  obtain ⟨hc, hker⟩ := h.count_kernels he
  exact ⟨he, (BlockAlloc.set_elems_self d.trie e).symm, .refl _ _, rfl, rfl, rfl, le_rfl, hA,
    h.kernels.range e he₀, fun e' a a' hne he' hk' ha ha' heq =>
      hne (h.kernels.apart e' e a' a he' he₀ hk' (hA (by omega)) ha' ha heq.symm),
    fun a ha => hker (hA (by omega)) a ha, hc, h.kernels.fresh⟩

/-- A node without kernels gets the next `|m_aggr_attributes|` ids when they can all be fetched:
they lie past every other node's, and hold fresh kernels. -/
theorem RunInv.prepared_new (h : RunInv d acc) {key : List UInt8} {e : Nat}
    (he : lookup d.trie key = some e) (hk : (d.node e).kId = noKernels)
    (hA : 0 < d.aggrAttributes.length) {ks : BlockAlloc (AggregateKernel V)}
    (hks : d.kernels.Extends AggregateKernel.init ks)
    (hok : ∀ i < d.aggrAttributes.length,
      ks.Allocated (UInt32.ofNat (d.numKernelEntries + 1) + UInt32.ofNat i).toNat)
    (hN : d.numKernelEntries + d.aggrAttributes.length < 2 ^ 32 - 1) :
    Prepared d { d with
      numKernelEntries := d.numKernelEntries + d.aggrAttributes.length, kernels := ks,
      trie := d.trie.set e { d.node e with kId := UInt32.ofNat (d.numKernelEntries + 1) } }
      acc key e (UInt32.ofNat (d.numKernelEntries + 1)) := by
  have hid : (UInt32.ofNat (d.numKernelEntries + 1)).toNat = d.numKernelEntries + 1 := by
    rw [toNat_uint32_ofNat, Nat.mod_eq_of_lt (by omega)]
  have hid' : ∀ i < d.aggrAttributes.length,
      (UInt32.ofNat (d.numKernelEntries + 1) + UInt32.ofNat i).toNat = d.numKernelEntries + 1 + i :=
    fun i hi => by
      rw [toNat_uint32_add, hid, toNat_uint32_ofNat, Nat.mod_eq_of_lt (by omega : i < 2 ^ 32)]
      exact Nat.mod_eq_of_lt (by omega)
  -- no snapshot with this key was accepted, or its node would have kernels
  have hkey : keyCount acc key = 0 := by
    by_contra hne
    obtain ⟨e', he', -, hkid, -⟩ := h.refines.holds key (Nat.pos_of_ne_zero hne)
    obtain rfl : e = e' := Option.some.inj (he.symm.trans he')
    exact hkid hA hk
  -- a kernel past the counter is fresh
  have hfresh : ∀ j, ks.Allocated j → d.numKernelEntries < j → ks.elems j = AggregateKernel.init :=
    fun j hj hjN => by
      by_cases hj₀ : d.kernels.Allocated j
      · rw [(hks.old j hj₀).2]
        exact h.kernels.fresh j hj₀ hjN
      · exact (hks.new j hj hj₀).1
  refine ⟨he, rfl, hks, rfl, rfl, rfl, Nat.le_add_right _ _, fun _ h0 => ?_, fun _ => ?_,
    fun e' a a' hne he' hk' ha ha' => ?_, fun a ha => ?_, ?_,
    fun j hj hjN => hfresh j hj (lt_of_le_of_lt (Nat.le_add_right _ _) hjN)⟩
  · have := congrArg UInt32.toNat h0
    rw [hid, show noKernels.toNat = 2 ^ 32 - 1 from rfl] at this
    omega
  · refine ⟨by rw [hid]; show _ ≤ d.numKernelEntries + d.aggrAttributes.length + 1; omega,
      fun a ha => ?_⟩
    simpa only [hid, hid' a ha] using hok a ha
  · have := (h.kernels.range e' he' hk').1
    rw [hid]
    omega
  · rw [hid, keyKernel_of_keyCount hkey]
    exact hfresh _ (by simpa only [hid' a ha] using hok a ha) (by omega)
  · rw [(h.node_of_keyCount he hkey).1, hkey]
    rfl

/-- The database once an accepted snapshot's count and values are added at node `e`, whose kernels
start at id `k`: lines 509-518 in closed form (`accept_eq`). -/
def addedAt (d₃ : AggregateDB V) (e k : Nat) (imms : List (Immediate V)) : AggregateDB V :=
  { d₃ with
    trie := d₃.trie.set e { d₃.node e with count := (d₃.node e).count + 1 }
    kernels := { d₃.kernels with elems := (fun j =>
      if k ≤ j ∧ j < k + d₃.aggrAttributes.length then
        (attrDoubles (d₃.aggrAttributes.getD (j - k) 0) imms).foldl AggregateKernel.add (d₃.kernel j)
      else d₃.kernel j) } }

/-- Counting a snapshot at `e` and adding its values to `e`'s allocated kernels is `addedAt`. -/
theorem accept_eq (d₃ : AggregateDB V) (e : Nat) (alloc : Bool) (imms : List (Immediate V))
    (hk : ∀ a < d₃.aggrAttributes.length, d₃.kernels.Allocated ((d₃.node e).kId.toNat + a) ∧
      ((d₃.node e).kId.toNat + a) / entriesPerBlock < maxBlocks) :
    (d₃.bumpCount e).updateKernels e alloc imms 0 d₃.aggrAttributes =
      d₃.addedAt e (d₃.node e).kId.toNat imms := by
  have hkid : ((d₃.bumpCount e).node e).kId = (d₃.node e).kId := by simp [bumpCount, node]
  rw [updateKernels_frame, updateKernels_kernels e alloc imms 0 _ _ (by simpa only [hkid] using hk)]
  simp only [addedAt, hkid, Nat.add_zero]
  rfl

section Accept

variable {d₃ : AggregateDB V} {key : List UInt8} {e : Nat} {k : UInt32}

theorem Prepared.addedAt_trie (hp : Prepared d d₃ acc key e k) (imms : List (Immediate V)) :
    (d₃.addedAt e k.toNat imms).trie =
      d.trie.set e { d.node e with kId := k, count := (d.node e).count + 1 } := by
  simp only [addedAt, node]
  rw [hp.trie_eq, BlockAlloc.set_set, BlockAlloc.set_elems, if_pos rfl]
  rfl

theorem Prepared.node_addedAt (hp : Prepared d d₃ acc key e k) (imms : List (Immediate V))
    (p : Nat) : (d₃.addedAt e k.toNat imms).node p =
      if p = e then { d.node e with kId := k, count := (d.node e).count + 1 } else d.node p := by
  simp only [node]
  rw [hp.addedAt_trie, BlockAlloc.set_elems]
  rfl

/-- Where the kernels sit, once the snapshot is added: `e`'s range is apart from every other
node's, and below the counter. -/
theorem Prepared.kernelInv_addedAt (h : RunInv d acc) (hp : Prepared d d₃ acc key e k)
    (imms : List (Immediate V)) : KernelInv (d₃.addedAt e k.toNat imms) := by
  have hn := hp.node_addedAt imms
  have halloc : ∀ p, (d₃.addedAt e k.toNat imms).trie.Allocated p ↔ d.trie.Allocated p := by
    intro p; rw [hp.addedAt_trie, BlockAlloc.set_allocated]
  have hA : (d₃.addedAt e k.toNat imms).aggrAttributes = d.aggrAttributes := hp.aggr_eq
  refine ⟨fun j hj => ?_, fun p hp' hkp => ?_, fun p p' a a' hp₁ hp₂ hk₁ hk₂ ha ha' heq => ?_,
    fun j hj hjN => ?_⟩
  · by_cases hj₀ : d.kernels.Allocated j
    exacts [h.kernels.block_le j hj₀, (hp.kernels_extend.new j hj hj₀).2]
  · rw [hA]
    rw [hn] at hkp ⊢
    split_ifs at hkp ⊢ with hpe
    · exact hp.range hkp
    · obtain ⟨hr, hal⟩ := h.kernels.range p ((halloc p).mp hp') hkp
      exact ⟨hr.trans (Nat.add_le_add_right hp.numKernelEntries_le 1),
        fun a ha => (hp.kernels_extend.old _ (hal a ha)).1⟩
  · rw [hA] at ha ha'
    rw [hn, hn] at heq
    rw [hn] at hk₁
    rw [hn] at hk₂
    split_ifs at heq hk₁ hk₂ with h₁ h₂ h₂
    · exact h₁.trans h₂.symm
    · exact absurd heq (hp.apart p' a a' h₂ ((halloc p').mp hp₂) hk₂ ha ha')
    · exact absurd heq.symm (hp.apart p a' a h₁ ((halloc p).mp hp₁) hk₁ ha' ha)
    · exact h.kernels.apart p p' a a' ((halloc p).mp hp₁) ((halloc p').mp hp₂) hk₁ hk₂ ha ha' heq
  · -- past the counter, `e`'s range is not reached
    have hout : ¬(k.toNat ≤ j ∧ j < k.toNat + d₃.aggrAttributes.length) := by
      rw [hp.aggr_eq]
      by_cases hk : k = noKernels
      · have : d.aggrAttributes.length = 0 := by
          by_contra h0
          exact hp.kId_ne (Nat.pos_of_ne_zero h0) hk
        omega
      · have := (hp.range hk).1
        exact fun hr => absurd hjN (by show ¬ d₃.numKernelEntries < j; omega)
    show (if _ then _ else _) = _
    rw [if_neg hout]
    exact hp.fresh j hj hjN

theorem Prepared.lookup_addedAt (hp : Prepared d d₃ acc key e k) (imms : List (Immediate V))
    (K : List UInt8) : lookup (d₃.addedAt e k.toNat imms).trie K = lookup d.trie K := by
  rw [hp.addedAt_trie]
  exact lookup_set_node d.trie (n := { d.node e with kId := k, count := (d.node e).count + 1 })
    rfl K

/-- Once the snapshot is added, the database refines the accepted snapshots with it: its key's
node counts it and has its values in its kernels, and no other node or kernel changed. -/
theorem Prepared.refines_addedAt (h : RunInv d acc) (hp : Prepared d d₃ acc key e k)
    (imms : List (Immediate V)) : Refines (d₃.addedAt e k.toNat imms) (acc ++ [(key, imms)]) := by
  have hn := hp.node_addedAt imms
  have hker : ∀ j, (d₃.addedAt e k.toNat imms).kernel j =
      if k.toNat ≤ j ∧ j < k.toNat + d.aggrAttributes.length then
        (attrDoubles (d.aggrAttributes.getD (j - k.toNat) 0) imms).foldl AggregateKernel.add
          (d₃.kernel j)
      else d₃.kernel j := fun j => by
    show (if _ then _ else _) = _
    rw [hp.aggr_eq]
  have hA : (d₃.addedAt e k.toNat imms).aggrAttributes = d.aggrAttributes := hp.aggr_eq
  refine ⟨fun K hK => ?_, fun p hp' hne => ?_⟩
  · rw [hA]
    rw [keyCount_append] at hK ⊢
    by_cases hK' : key = K
    · -- the snapshot's own key
      subst hK'
      refine ⟨e, by rw [hp.lookup_addedAt]; exact hp.lookup_eq, ?_, ?_, fun a ha => ?_⟩ <;>
        rw [hn, if_pos rfl] <;> dsimp only
      · rw [if_pos rfl, toNat_uint32_succ, hp.count_eq]
        omega
      · exact hp.kId_ne
      · rw [hker, if_pos (by omega), Nat.add_sub_cancel_left, hp.kernel_eq a ha, keyKernel_append,
          if_pos rfl]
    · -- another key: its node is not `e`, and its kernels are apart from `e`'s
      rw [if_neg hK', Nat.add_zero] at hK ⊢
      obtain ⟨eK, hKe, hc, hkid, hkerK⟩ := h.refines.holds K hK
      have heK : eK ≠ e := fun heq => hK' (h.trie.lookup_injective hp.lookup_eq (heq ▸ hKe))
      have heK₀ := allocated_of_lookup hKe
      refine ⟨eK, by rw [hp.lookup_addedAt]; exact hKe, ?_, ?_, fun a ha => ?_⟩ <;>
        rw [hn, if_neg heK]
      · exact hc
      · exact hkid
      · have hkK := hkid (by omega)
        have hout : ¬(k.toNat ≤ (d.node eK).kId.toNat + a ∧
            (d.node eK).kId.toNat + a < k.toNat + d.aggrAttributes.length) := fun hr =>
          hp.apart eK ((d.node eK).kId.toNat + a - k.toNat) a heK heK₀ hkK (by omega) ha (by omega)
        rw [hker, if_neg hout, keyKernel_append, if_neg hK']
        have hka := (h.kernels.range eK heK₀ hkK).2 a ha
        show d₃.kernels.elems _ = _
        rw [(hp.kernels_extend.old _ hka).2]
        exact hkerK a ha
  · have hp₀ : d.trie.Allocated p := by rwa [hp.addedAt_trie] at hp'
    rw [hn] at hne
    split_ifs at hne with hpe
    · subst hpe
      exact ⟨key, by rw [keyCount_append, if_pos rfl]; omega,
        by rw [hp.lookup_addedAt]; exact hp.lookup_eq⟩
    · obtain ⟨K, hK, hKp⟩ := h.refines.only p hp₀ hne
      exact ⟨K, by rw [keyCount_append]; omega, by rw [hp.lookup_addedAt]; exact hKp⟩

/-- The accepted snapshot, once added, leaves a database that keeps what a run keeps, counts it at
its key's node, and changes no other node's count. -/
theorem Prepared.accept (h : RunInv d acc) (hp : Prepared d d₃ acc key e k)
    (imms : List (Immediate V)) :
    RunInv (d₃.addedAt e k.toNat imms) (acc ++ [(key, imms)]) ∧
      lookup (d₃.addedAt e k.toNat imms).trie key = some e ∧
      (d₃.addedAt e k.toNat imms).countOf =
        Function.update d.countOf e ((d.countOf e + 1) % 2 ^ 32) := by
  have heN := h.trie.lookup_le hp.lookup_eq
  have he₀ := allocated_of_lookup hp.lookup_eq
  refine ⟨⟨?_, hp.kernelInv_addedAt h imms, hp.refines_addedAt h imms⟩,
    by rw [hp.lookup_addedAt]; exact hp.lookup_eq, ?_⟩
  · show TrieInv _ d₃.numTrieEntries
    rw [hp.addedAt_trie, hp.numTrieEntries_eq]
    exact h.trie.set_node heN rfl
  · funext p
    simp only [countOf, Function.update_apply, hp.node_addedAt imms p]
    rw [hp.addedAt_trie]
    by_cases hpe : p = e
    · subst hpe
      simp [he₀, toNat_uint32_succ]
    · simp only [if_neg hpe, BlockAlloc.set_allocated]

/-- With its kernels allocated, the node's count and values are added as `addedAt` says. -/
theorem Prepared.updateKernels_eq (h : RunInv d acc) (hp : Prepared d d₃ acc key e k)
    (alloc : Bool) (imms : List (Immediate V)) :
    (d₃.bumpCount e).updateKernels e alloc imms 0 d₃.aggrAttributes =
      d₃.addedAt e k.toNat imms := by
  have hkid : (d₃.node e).kId = k := by
    simp only [node]
    rw [hp.trie_eq, BlockAlloc.set_elems, if_pos rfl]
  rw [accept_eq d₃ e alloc imms fun a ha => ?_, hkid]
  rw [hkid]
  rw [hp.aggr_eq] at ha
  have hka := (hp.range (hp.kId_ne (by omega))).2 a ha
  refine ⟨hka, ?_⟩
  by_cases h₀ : d.kernels.Allocated (k.toNat + a)
  exacts [h.kernels.block_le _ h₀, (hp.kernels_extend.new _ hka h₀).2]

end Accept

end Steps

variable {db : AggregateDB V} {acc : List (List UInt8 × List (Immediate V))}

/-- One call, on a database that keeps what a run keeps and with the kernel counter staying
below `2^32 - 1`: either the snapshot is dropped, counted in `m_num_dropped`, with no node's count
changed; or it is accepted, with `m_num_dropped` as it was, counted at the node its key reaches
and at no other, and the database refines the accepted snapshots with it. -/
theorem processSnapshot_step (h : RunInv db acc) (cfg : Config) (c : Host) (snap : SnapshotRecord V)
    (hne : ¬ IsEmpty snap) (hN : (db.processSnapshot cfg c snap).numKernelEntries < 2 ^ 32 - 1) :
    ((db.processSnapshot cfg c snap).numDropped = db.numDropped + 1 ∧
      (db.processSnapshot cfg c snap).countOf = db.countOf ∧
      RunInv (db.processSnapshot cfg c snap) acc) ∨
    ((db.processSnapshot cfg c snap).numDropped = db.numDropped ∧
      ∃ e, lookup (db.processSnapshot cfg c snap).trie (buildKey cfg c snap).key = some e ∧
        (db.processSnapshot cfg c snap).countOf =
          Function.update db.countOf e ((db.countOf e + 1) % 2 ^ 32) ∧
        RunInv (db.processSnapshot cfg c snap)
          (acc ++ [((buildKey cfg c snap).key, snap.immediates)])) := by
  unfold processSnapshot at hN ⊢
  rw [if_neg hne] at hN ⊢
  dsimp only at hN ⊢
  generalize max (buildKey cfg c snap).key.length db.maxKeylen = m at hN ⊢
  generalize hdb₁ : { db with maxKeylen := m } = db₁ at hN ⊢
  have h₁ : RunInv db₁ acc := by rw [← hdb₁]; exact h.congr rfl rfl rfl rfl rfl
  have hc₁ : db₁.countOf = db.countOf := by rw [← hdb₁]; rfl
  have hd₁ : db₁.numDropped = db.numDropped := by rw [← hdb₁]
  obtain ⟨⟨o, w⟩, hg, hf, hfind⟩ := findEntry_spec h₁.trie (buildKey cfg c snap).key (!c.isSignal)
  dsimp only at hg hf hfind
  rw [hfind] at hN ⊢
  have hw := h₁.trieGrown hg
  have hcw : w.countOf = db.countOf := (countOf_trieGrown hg).trans hc₁
  have hdw : w.numDropped = db.numDropped := by
    obtain ⟨t, N, ht⟩ := hg.frame
    rw [show w = _ from ht, ← hd₁]
  cases o with
  | none =>
    dsimp only [Option.elim]
    exact .inl ⟨by rw [hdw], hcw, hw.congr rfl rfl rfl rfl rfl⟩
  | some x =>
    have hl := hf x rfl
    dsimp only [Option.elim] at hN ⊢
    rcases allocKernels_cases w x (!c.isSignal) with ⟨hk, ha⟩ | ⟨hk, hA, ok, ks, hks, hok, ha⟩
    · -- the node has its kernels: accepted
      rw [ha] at hN ⊢
      dsimp only at hN ⊢
      have hp := hw.prepared_noop hl hk
      rw [hp.updateKernels_eq hw] at hN ⊢
      obtain ⟨hinv, hlk, hcnt⟩ := hp.accept hw snap.immediates
      exact .inr ⟨hp.numDropped_eq.trans hdw, x, hlk, by rw [hcnt, hcw], hinv⟩
    · rw [ha] at hN ⊢
      cases ok
      · -- its kernels cannot all be fetched: dropped
        rw [if_neg Bool.false_ne_true] at hN ⊢
        exact .inl ⟨by dsimp only; rw [hdw], hcw,
          (hw.extendKernels hks (Nat.le_add_right _ _)).congr rfl rfl rfl rfl rfl⟩
      · -- its kernels are fetched: accepted
        rw [if_pos rfl] at hN ⊢
        dsimp only at hN ⊢
        have hN' : w.numKernelEntries + w.aggrAttributes.length < 2 ^ 32 - 1 := by
          rw [updateKernels_frame] at hN
          exact hN
        have hp := hw.prepared_new hl hk hA hks (hok rfl) hN'
        rw [hp.updateKernels_eq hw]
        obtain ⟨hinv, hlk, hcnt⟩ := hp.accept hw snap.immediates
        exact .inr ⟨hp.numDropped_eq.trans hdw, x, hlk, by rw [hcnt, hcw], hinv⟩

/-- The kernel counter never goes down. -/
theorem numKernelEntries_le_processSnapshot (cfg : Config) (c : Host) (snap : SnapshotRecord V)
    (h : TrieInv db.trie db.numTrieEntries) :
    db.numKernelEntries ≤ (db.processSnapshot cfg c snap).numKernelEntries := by
  unfold processSnapshot
  split_ifs
  · exact le_rfl
  dsimp only
  generalize max (buildKey cfg c snap).key.length db.maxKeylen = m
  generalize hdb₁ : { db with maxKeylen := m } = db₁
  obtain ⟨⟨o, w⟩, hg, -, hfind⟩ :=
    findEntry_spec (show TrieInv db₁.trie db₁.numTrieEntries by rw [← hdb₁]; exact h) _
      (!c.isSignal)
  dsimp only at hg hfind
  rw [hfind]
  have hw : w.numKernelEntries = db.numKernelEntries := by
    obtain ⟨t, N, ht⟩ := hg.frame
    rw [show w = _ from ht, ← hdb₁]
  cases o with
  | none => exact hw.ge
  | some x =>
    dsimp only [Option.elim]
    rcases allocKernels_cases w x (!c.isSignal) with ⟨-, ha⟩ | ⟨-, -, ok, ks, -, -, ha⟩ <;>
      rw [ha]
    · dsimp only
      rw [updateKernels_frame]
      exact hw.ge
    · cases ok
      · rw [if_neg Bool.false_ne_true]
        exact hw.ge.trans (Nat.le_add_right _ _)
      · rw [if_pos rfl]
        dsimp only
        rw [updateKernels_frame]
        exact hw.ge.trans (Nat.le_add_right _ _)

/-- The database after `process_snapshot` runs on each call in turn. -/
def runCalls (db : AggregateDB V) (calls : List (Call V)) : AggregateDB V :=
  calls.foldl (fun d k => d.processSnapshot k.cfg k.host k.snap) db

@[simp] theorem runCalls_nil (db : AggregateDB V) : db.runCalls [] = db := rfl

@[simp] theorem runCalls_cons (db : AggregateDB V) (k : Call V) (ks : List (Call V)) :
    db.runCalls (k :: ks) = (db.processSnapshot k.cfg k.host k.snap).runCalls ks := rfl

/-- Reference definition, from the specification: the calls of a run that were accepted, those whose
snapshot is not empty and that `m_num_dropped` did not count, each as its key and its immediate
entries, in ingest order. -/
def acceptedCalls : AggregateDB V → List (Call V) → List (List UInt8 × List (Immediate V))
  | _, [] => []
  | db, k :: ks =>
    (if ¬ IsEmpty k.snap ∧ (db.processSnapshot k.cfg k.host k.snap).numDropped = db.numDropped
      then [((buildKey k.cfg k.host k.snap).key, k.snap.immediates)] else []) ++
    acceptedCalls (db.processSnapshot k.cfg k.host k.snap) ks

/-- One call's effect on a database, as the specification describes it: drop the snapshot,
counting it in `m_num_dropped` with every node's count as it was, or accept it, with
`m_num_dropped` as it was and one more, modulo `2^32`, at the node its key reaches and at no
other. -/
def Outcome (db : AggregateDB V) (k : Call V) (db' : AggregateDB V) : Prop :=
  (db'.numDropped = db.numDropped + 1 ∧ db'.countOf = db.countOf) ∨
    (db'.numDropped = db.numDropped ∧ ∃ e, lookup db'.trie (buildKey k.cfg k.host k.snap).key = some e ∧
      db'.countOf = Function.update db.countOf e ((db.countOf e + 1) % 2 ^ 32))

theorem trieInv_runCalls : ∀ (calls : List (Call V)) {db : AggregateDB V},
    TrieInv db.trie db.numTrieEntries →
      TrieInv (db.runCalls calls).trie (db.runCalls calls).numTrieEntries
  | [], _, h => h
  | k :: ks, _, h => trieInv_runCalls ks (trieInv_processSnapshot k.cfg k.host k.snap h)

theorem numKernelEntries_le_runCalls : ∀ (calls : List (Call V)) {db : AggregateDB V},
    TrieInv db.trie db.numTrieEntries → db.numKernelEntries ≤ (db.runCalls calls).numKernelEntries
  | [], _, _ => le_rfl
  | k :: ks, _, h => (numKernelEntries_le_processSnapshot k.cfg k.host k.snap h).trans
      (numKernelEntries_le_runCalls ks (trieInv_processSnapshot k.cfg k.host k.snap h))

/-- A run from a database that keeps what a run keeps, its kernel counter ending below
`2^32 - 1`: each call does what `Outcome` says, and the database at the end refines the snapshots
accepted before and during the run. -/
theorem runCalls_spec : ∀ (calls : List (Call V)) {db : AggregateDB V} {acc},
    RunInv db acc → (db.runCalls calls).numKernelEntries < 2 ^ 32 - 1 →
    (∀ pre k post, calls = pre ++ k :: post → ¬ IsEmpty k.snap →
      Outcome (db.runCalls pre) k ((db.runCalls pre).processSnapshot k.cfg k.host k.snap)) ∧
    RunInv (db.runCalls calls) (acc ++ db.acceptedCalls calls)
  | [], _, _, h, _ => ⟨fun pre _ _ hc => absurd hc.symm (by simp), by simpa [acceptedCalls] using h⟩
  | k :: ks, db, acc, h, hN => by
    have hN₁ : (db.processSnapshot k.cfg k.host k.snap).numKernelEntries < 2 ^ 32 - 1 :=
      lt_of_le_of_lt (numKernelEntries_le_runCalls ks
        (trieInv_processSnapshot k.cfg k.host k.snap h.trie)) hN
    -- the first call: what it does, and what the run keeps after it
    obtain ⟨hout₁, hinv₁⟩ :
        (¬ IsEmpty k.snap → Outcome db k (db.processSnapshot k.cfg k.host k.snap)) ∧
        RunInv (db.processSnapshot k.cfg k.host k.snap) (acc ++ db.acceptedCalls [k]) := by
      by_cases hne : IsEmpty k.snap
      · have he : db.processSnapshot k.cfg k.host k.snap = db := by
          unfold processSnapshot
          rw [if_pos hne]
        refine ⟨absurd hne, ?_⟩
        simpa [acceptedCalls, hne, he] using h
      rcases processSnapshot_step h k.cfg k.host k.snap hne hN₁ with
        ⟨hd, hc, hi⟩ | ⟨hd, e, hl, hc, hi⟩
      · exact ⟨fun _ => .inl ⟨hd, hc⟩, by simpa [acceptedCalls, hd] using hi⟩
      · exact ⟨fun _ => .inr ⟨hd, e, hl, hc⟩, by simpa [acceptedCalls, hd, hne] using hi⟩
    obtain ⟨hout, hinv⟩ := runCalls_spec ks hinv₁ hN
    refine ⟨fun pre k' post hc hne => ?_, ?_⟩
    · cases pre with
      | nil =>
        cases hc
        exact hout₁ hne
      | cons _ pre =>
        cases hc
        exact hout pre k' post rfl hne
    · have hs : db.acceptedCalls (k :: ks) =
          db.acceptedCalls [k] ++ (db.processSnapshot k.cfg k.host k.snap).acceptedCalls ks := by
        simp [acceptedCalls]
      rw [hs, ← List.append_assoc]
      exact hinv

/-- A database as `AggregateDB(c)` builds it or `clear()` leaves it: no ids handed out, and every
allocated node and kernel as its constructor leaves it, within `MAX_BLOCKS`. -/
structure Start (db : AggregateDB V) : Prop where
  numTrieEntries_eq : db.numTrieEntries = 0
  numKernelEntries_eq : db.numKernelEntries = 0
  node_init : ∀ p, db.trie.Allocated p → db.node p = TrieNode.init ∧ p / entriesPerBlock < maxBlocks
  kernel_init : ∀ j, db.kernels.Allocated j →
    db.kernel j = AggregateKernel.init ∧ j / entriesPerBlock < maxBlocks

omit [Add V] in
theorem start_new (aggr : List UInt64) (trieBlocks kernelBlocks : Nat) :
    (new aggr trieBlocks kernelBlocks : AggregateDB V).Start where
  numTrieEntries_eq := rfl
  numKernelEntries_eq := rfl
  node_init _ hp := (BlockAlloc.allocated_of_get_snd hp).resolve_left Bool.false_ne_true
  kernel_init _ hj := (BlockAlloc.allocated_of_get_snd hj).resolve_left Bool.false_ne_true

omit [Add V] in
theorem start_clear (db : AggregateDB V) : db.clear.Start where
  numTrieEntries_eq := rfl
  numKernelEntries_eq := rfl
  node_init _ hp := absurd hp (BlockAlloc.clear_allocated _ _)
  kernel_init _ hj := absurd hj (BlockAlloc.clear_allocated _ _)

/-- A database at its start holds no snapshot. -/
theorem Start.runInv (hs : db.Start) : RunInv db [] where
  trie := by
    have h₀ : TrieInv (BlockAlloc.new TrieNode.init 0) 0 :=
      TrieInv.of_unallocated fun _ => Bool.false_ne_true
    rw [hs.numTrieEntries_eq]
    exact h₀.of_extends ⟨fun _ h => absurd h Bool.false_ne_true, fun p hp _ => hs.node_init p hp⟩
  kernels := by
    refine ⟨fun j hj => (hs.kernel_init j hj).2, ?_, ?_, fun j hj _ => (hs.kernel_init j hj).1⟩
    · intro e he hk
      exact absurd (by rw [(hs.node_init e he).1]; rfl) hk
    · intro e _ _ _ he _ hk
      exact absurd (by rw [(hs.node_init e he).1]; rfl) hk
  refines := by
    refine ⟨fun K hK => absurd hK (by simp [keyCount]), fun e he hc => ?_⟩
    rw [(hs.node_init e he).1] at hc
    exact absurd hc (by decide)

/-- Every run of `process_snapshot` calls from construction or `clear()`, its kernel counter
ending below `2^32 - 1`, in which no `BlockAlloc::get` read `m_blocks[MAX_BLOCKS]`: each call
drops its snapshot or accepts it as `Outcome` says, and the database refines the snapshots it
accepted. The model goes on after such a read as if the pointer were null; the code does not, so
the statement is about the runs without one. -/
theorem runCalls_refines (hs : db.Start) (calls : List (Call V))
    (hk : (db.runCalls calls).numKernelEntries < 2 ^ 32 - 1) :
    (db.runCalls calls).InBounds →
    (∀ pre k post, calls = pre ++ k :: post → ¬ IsEmpty k.snap →
      Outcome (db.runCalls pre) k ((db.runCalls pre).processSnapshot k.cfg k.host k.snap)) ∧
    Refines (db.runCalls calls) (db.acceptedCalls calls) := fun _ => by
  obtain ⟨hout, hinv⟩ := runCalls_spec calls hs.runInv hk
  exact ⟨hout, List.nil_append (db.acceptedCalls calls) ▸ hinv.refines⟩

theorem runCalls_refines_one_call :
    (new [7] 0 0 : AggregateDB Float).Start ∧
    ((new [7] 0 0 : AggregateDB Float).runCalls
      [⟨⟨0, [], [], 0⟩, ⟨false, fun _ => none⟩, ⟨[⟨⟨5, 7⟩, []⟩], [⟨7, 0, 2.5⟩]⟩⟩]).numKernelEntries <
        2 ^ 32 - 1 ∧
    ((new [7] 0 0 : AggregateDB Float).runCalls
      [⟨⟨0, [], [], 0⟩, ⟨false, fun _ => none⟩, ⟨[⟨⟨5, 7⟩, []⟩], [⟨7, 0, 2.5⟩]⟩⟩]).InBounds ∧
    (∀ pre k post, [⟨⟨0, [], [], 0⟩, ⟨false, fun _ => none⟩, ⟨[⟨⟨5, 7⟩, []⟩], [⟨7, 0, 2.5⟩]⟩⟩] =
        pre ++ k :: post → ¬ IsEmpty k.snap →
      Outcome ((new [7] 0 0 : AggregateDB Float).runCalls pre) k
        (((new [7] 0 0 : AggregateDB Float).runCalls pre).processSnapshot k.cfg k.host k.snap)) ∧
    Refines ((new [7] 0 0 : AggregateDB Float).runCalls
        [⟨⟨0, [], [], 0⟩, ⟨false, fun _ => none⟩, ⟨[⟨⟨5, 7⟩, []⟩], [⟨7, 0, 2.5⟩]⟩⟩])
      ((new [7] 0 0 : AggregateDB Float).acceptedCalls
        [⟨⟨0, [], [], 0⟩, ⟨false, fun _ => none⟩, ⟨[⟨⟨5, 7⟩, []⟩], [⟨7, 0, 2.5⟩]⟩⟩]) :=
  ⟨start_new [7] 0 0, by decide, by decide,
    runCalls_refines (start_new [7] 0 0) _ (by decide) (by decide)⟩

/-- A snapshot whose key reaches a node, in a database with no aggregated attributes, is counted
at that node and changes nothing else but the longest key. -/
theorem processSnapshot_of_lookup {cfg : Config} {c : Host} {snap : SnapshotRecord V} {e : Nat}
    (hne : ¬ IsEmpty snap) (hl : lookup db.trie (buildKey cfg c snap).key = some e)
    (hA : db.aggrAttributes = []) :
    db.processSnapshot cfg c snap =
      { db with maxKeylen := max (buildKey cfg c snap).key.length db.maxKeylen }.bumpCount e := by
  unfold processSnapshot
  rw [if_neg hne]
  dsimp only
  rw [findEntry_of_lookup (show lookup { db with
    maxKeylen := max (buildKey cfg c snap).key.length db.maxKeylen }.trie _ = some e from hl)]
  simp [allocKernels, hA, updateKernels]

/-- Repeating, `n` times, a call whose key reaches a node, on a database with no aggregated
attributes: every call is accepted, and the node's count grows by `n` modulo `2^32`. -/
theorem runCalls_replicate_of_lookup (k : Call V) (hne : ¬ IsEmpty k.snap) :
    ∀ (n : Nat) {db : AggregateDB V} {e : Nat},
      lookup db.trie (buildKey k.cfg k.host k.snap).key = some e → db.aggrAttributes = [] →
      db.acceptedCalls (List.replicate n k) =
        List.replicate n ((buildKey k.cfg k.host k.snap).key, k.snap.immediates) ∧
      lookup (db.runCalls (List.replicate n k)).trie (buildKey k.cfg k.host k.snap).key = some e ∧
      ((db.runCalls (List.replicate n k)).node e).count.toNat =
        ((db.node e).count.toNat + n) % 2 ^ 32
  | 0, db, e, hl, _ => ⟨rfl, hl, (Nat.mod_eq_of_lt (db.node e).count.toBitVec.isLt).symm⟩
  | n + 1, db, e, hl, hA => by
    have hs := processSnapshot_of_lookup hne hl hA
    generalize max (buildKey k.cfg k.host k.snap).key.length db.maxKeylen = m at hs
    have hl' :
        lookup (db.processSnapshot k.cfg k.host k.snap).trie (buildKey k.cfg k.host k.snap).key =
          some e := by
      rw [hs, lookup_bumpCount]
      exact hl
    have hA' : (db.processSnapshot k.cfg k.host k.snap).aggrAttributes = [] := by rw [hs]; exact hA
    obtain ⟨hacc, hlk, hcnt⟩ := runCalls_replicate_of_lookup k hne n hl' hA'
    refine ⟨?_, hlk, ?_⟩
    · rw [List.replicate_succ, acceptedCalls, hacc, if_pos ⟨hne, by rw [hs]; rfl⟩]
      rfl
    · have hc : ((db.processSnapshot k.cfg k.host k.snap).node e).count.toNat =
          ((db.node e).count.toNat + 1) % 2 ^ 32 := by
        rw [hs]
        exact count_bumpCount _ e
      rw [List.replicate_succ]
      refine hcnt.trans ?_
      rw [hc]
      omega

/-- One snapshot ingested `2^32` times into a database without aggregated attributes: every time
accepted at key `[2, 5]`, whose node then has count 0. -/
theorem count_wraps :
    keyCount ((new [] 0 0 : AggregateDB Float).acceptedCalls (List.replicate (2 ^ 32)
      ⟨⟨0, [], [], 0⟩, ⟨false, fun _ => none⟩, ⟨[⟨⟨5, 7⟩, []⟩], []⟩⟩)) [2, 5] = 2 ^ 32 ∧
    lookup ((new [] 0 0 : AggregateDB Float).runCalls (List.replicate (2 ^ 32)
      ⟨⟨0, [], [], 0⟩, ⟨false, fun _ => none⟩, ⟨[⟨⟨5, 7⟩, []⟩], []⟩⟩)).trie [2, 5] = some 2 ∧
    (((new [] 0 0 : AggregateDB Float).runCalls (List.replicate (2 ^ 32)
      ⟨⟨0, [], [], 0⟩, ⟨false, fun _ => none⟩, ⟨[⟨⟨5, 7⟩, []⟩], []⟩⟩)).node 2).count = 0 := by
  -- the first call makes the key's path and counts 1; the other `2^32 - 1` find it
  have h₁ : (buildKey ⟨0, [], [], 0⟩ ⟨false, fun _ => none⟩
        (⟨[⟨⟨5, 7⟩, []⟩], []⟩ : SnapshotRecord Float)).key = [2, 5] ∧
      lookup ((new [] 0 0 : AggregateDB Float).processSnapshot ⟨0, [], [], 0⟩
        ⟨false, fun _ => none⟩ ⟨[⟨⟨5, 7⟩, []⟩], []⟩).trie [2, 5] = some 2 ∧
      (((new [] 0 0 : AggregateDB Float).processSnapshot ⟨0, [], [], 0⟩
        ⟨false, fun _ => none⟩ ⟨[⟨⟨5, 7⟩, []⟩], []⟩).node 2).count = 1 ∧
      ((new [] 0 0 : AggregateDB Float).processSnapshot ⟨0, [], [], 0⟩
        ⟨false, fun _ => none⟩ ⟨[⟨⟨5, 7⟩, []⟩], []⟩).numDropped = 0 := by
    decide
  obtain ⟨hkey, hl, hc, hd⟩ := h₁
  obtain ⟨hacc, hlk, hcnt⟩ := runCalls_replicate_of_lookup
    ⟨⟨0, [], [], 0⟩, ⟨false, fun _ => none⟩, ⟨[⟨⟨5, 7⟩, []⟩], []⟩⟩ (by decide) (2 ^ 32 - 1)
    (hkey ▸ hl) rfl
  rw [hkey] at hacc hlk
  rw [show 2 ^ 32 = 2 ^ 32 - 1 + 1 from rfl, List.replicate_succ, runCalls_cons]
  refine ⟨?_, hlk, eq_zero_of_toNat_uint32 (hcnt.trans (by rw [hc]; rfl))⟩
  rw [acceptedCalls, if_pos ⟨by decide, hd⟩, hacc, hkey, List.singleton_append,
    ← List.replicate_succ, keyCount_replicate]

end AggregateDB

end CaliperAggregate
