import CaliperAggregate.Proofs.TrieSteps
import CaliperAggregate.Proofs.BlockCount

/-!
# The blocks a database holds

Every id `find_entry` fetches from `m_trie` is the root or a child id that
`++m_num_trie_entries` handed out, so it is at most the counter. Every id fetched from
`m_kernels` is at most `m_num_kernel_entries`: a node's new kernels are the ids just past the
counter, which line 235 advances over them first, and `process_snapshot` fetches kernel
`k_id + a` only of a node whose kernels lie below the counter. So in every state a database
reaches, each allocator holds no block past the one of its counter, and at most
`⌊N / ENTRIES_PER_BLOCK⌋ + 1` blocks, `N` being the counter (`Reachable.blocks_within`).
-/

namespace CaliperAggregate

namespace BlockAlloc

variable {α : Type} {m : BlockAlloc α} {B B' : Nat}

/-- Every block `m` holds is at most block `B`. -/
def Within (m : BlockAlloc α) (B : Nat) : Prop := ∀ b, m.blocks b = true → b ≤ B

theorem Within.allocated (h : m.Within B) {j : Nat} (hj : m.Allocated j) :
    j / entriesPerBlock ≤ B :=
  h _ hj

theorem Within.mono (h : m.Within B) (hB : B ≤ B') : m.Within B' := fun b hb => (h b hb).trans hB

theorem within_of_blocks (h : ∀ b, m.blocks b = false) (B : Nat) : m.Within B :=
  fun b hb => absurd hb (by rw [h b]; decide)

/-- `get` of an id in a block up to `B` brings in no block past `B`. -/
theorem Within.get (h : m.Within B) (init : α) (alloc : Bool) {id : Nat}
    (hid : id / entriesPerBlock ≤ B) : (m.get init id alloc).2.Within B := by
  rw [get_snd]
  split_ifs
  · intro b hb
    by_cases hbi : b = id / entriesPerBlock
    · exact hbi ▸ hid
    · exact h b (by simpa [install, Function.update_noteq hbi] using hb)
  · exact h
  · exact h

/-- An allocator whose blocks are all up to `B` holds at most `B + 1` of them. -/
theorem Within.setBelow_le (h : m.Within B) (k : Nat) : m.setBelow k ≤ B + 1 := by
  have hsub : (List.range k).filter m.blocks ⊆ List.range (B + 1) := fun b hb =>
    List.mem_range.mpr (Nat.lt_succ_of_le (h b (List.mem_filter.mp hb).2))
  simpa using (((List.nodup_range k).filter _).subperm hsub).length_le

end BlockAlloc

namespace AggregateDB

open BlockAlloc

variable {V : Type}

/-- The kernels of node `e`, `k_id + a` for each aggregated attribute `a`, lie at or below the
kernel counter. -/
def KernelsBelow (db : AggregateDB V) (e : Nat) : Prop :=
  ∀ a < db.aggrAttributes.length, (db.node e).kId.toNat + a ≤ db.numKernelEntries

theorem KernelsBelow.of_kId {d d' : AggregateDB V} {e e' : Nat} (h : d.KernelsBelow e)
    (hk : (d'.node e').kId = (d.node e).kId)
    (ha : d'.aggrAttributes.length = d.aggrAttributes.length)
    (hK : d.numKernelEntries ≤ d'.numKernelEntries) : d'.KernelsBelow e' := fun a hlt => by
  rw [hk]
  exact (h a (ha ▸ hlt)).trans hK

/-- What bounds the blocks a database holds: each allocator's blocks are up to the one of its
counter, and every node with kernels has them at or below the kernel counter. -/
structure Bounded (db : AggregateDB V) : Prop where
  trie : db.trie.Within (db.numTrieEntries / entriesPerBlock)
  kernels : db.kernels.Within (db.numKernelEntries / entriesPerBlock)
  kId : ∀ e, db.trie.Allocated e → (db.node e).kId ≠ noKernels → db.KernelsBelow e

/-- The bounds read only the two allocators, their counters and the aggregated attributes. -/
theorem Bounded.congr {d d' : AggregateDB V} (hb : d.Bounded) (ht : d'.trie = d.trie)
    (hk : d'.kernels = d.kernels) (hN : d'.numTrieEntries = d.numTrieEntries)
    (hK : d'.numKernelEntries = d.numKernelEntries) (ha : d'.aggrAttributes = d.aggrAttributes) :
    d'.Bounded := by
  refine ⟨?_, ?_, fun e he hne => ?_⟩
  · rw [ht, hN]
    exact hb.trie
  · rw [hk, hK]
    exact hb.kernels
  · have hn : d'.node e = d.node e := by rw [node, node, ht]
    rw [ht] at he
    rw [hn] at hne
    exact (hb.kId e he hne).of_kId (by rw [hn]) (by rw [ha]) hK.ge

section Trie

variable {db : AggregateDB V} {e : Nat}

/-- A step of the walk fetches a child id the counter handed out. -/
theorem walkStep_within (h : TrieInv db.trie db.numTrieEntries) (he : db.trie.Allocated e)
    (heN : e ≤ db.numTrieEntries) (hw : db.trie.Within (db.numTrieEntries / entriesPerBlock))
    (alloc : Bool) (b : UInt8) :
    (db.walkStep alloc e b).2.trie.Within
      ((db.walkStep alloc e b).2.numTrieEntries / entriesPerBlock) := by
  -- the database once node `e` has an edge along `b`
  obtain ⟨db₁, hdb₁, h₁, hw₁⟩ : ∃ db₁,
      (if (db.node e).next b = 0 then db.addEdge e b else db) = db₁ ∧
        TrieInv db₁.trie db₁.numTrieEntries ∧
        db₁.trie.Within (db₁.numTrieEntries / entriesPerBlock) := by
    split_ifs with hb
    · exact ⟨_, rfl, trieInv_addEdge h he heN hb,
        hw.mono (Nat.div_le_div_right (Nat.le_succ _))⟩
    · exact ⟨db, rfl, h, hw⟩
  have he₁ : db₁.trie.Allocated e := by
    rw [← hdb₁]
    split_ifs
    exacts [he, he]
  simp only [walkStep, hdb₁]
  exact hw₁.get _ alloc (Nat.div_le_div_right (h₁.next_le e b he₁))

theorem walk_within (alloc : Bool) : ∀ (key : List UInt8) {db : AggregateDB V} {e : Nat},
    TrieInv db.trie db.numTrieEntries → db.trie.Allocated e → e ≤ db.numTrieEntries →
    db.trie.Within (db.numTrieEntries / entriesPerBlock) →
    (walk alloc db (some e) key).2.trie.Within
      ((walk alloc db (some e) key).2.numTrieEntries / entriesPerBlock)
  | [], _, _, _, _, _, hw => hw
  | b :: bs, db, e, h, he, heN, hw => by
    obtain ⟨hg, hc⟩ := walkStep_spec h he heN alloc b
    have hw₁ := walkStep_within h he heN hw alloc b
    simp only [walk]
    cases hr : (db.walkStep alloc e b).1 with
    | none => simpa only [walk] using hw₁
    | some c =>
      have hch := hc c hr
      exact walk_within alloc bs hg.inv (child_eq_some.mp hch).2.2.2
        (hg.inv.child_le (hg.grows.allocated e he) hch) hw₁

/-- Growing the trie keeps the bounds while its blocks stay up to the one of its counter: a new
node has no kernels. -/
theorem Bounded.trieGrown {db' : AggregateDB V} (hb : db.Bounded) (hg : db.TrieGrown db')
    (hw : db'.trie.Within (db'.numTrieEntries / entriesPerBlock)) : db'.Bounded := by
  obtain ⟨t, N, rfl⟩ := hg.frame
  refine ⟨hw, hb.kernels, fun p hp hk => ?_⟩
  by_cases hold : db.trie.Allocated p
  · have hkId : (t.elems p).kId = (db.node p).kId := hg.grows.kId p hold
    exact (hb.kId p hold (hkId ▸ hk)).of_kId hkId rfl le_rfl
  · exact absurd (hg.grows.fresh p hp hold).2 hk

theorem bumpCount_node_kId (d : AggregateDB V) (x p : Nat) :
    ((d.bumpCount x).node p).kId = (d.node p).kId := by
  by_cases hp : p = x
  · subst hp
    simp [bumpCount, node]
  · simp [bumpCount, node, hp]

end Trie

section Kernels

variable [DoubleOps V] [Zero V] {db : AggregateDB V} {e : Nat}

/-- The `i`-th id past the counter `K`, in `uint32_t` arithmetic, is at most `K + 1 + i`. -/
theorem toNat_firstId_add_le (K i : Nat) :
    (UInt32.ofNat (K + 1) + UInt32.ofNat i).toNat ≤ K + 1 + i := by
  rw [toNat_uint32_add, toNat_uint32_ofNat, toNat_uint32_ofNat]
  exact (Nat.mod_le _ _).trans (Nat.add_le_add (Nat.mod_le _ _) (Nat.mod_le _ _))

theorem getKernels_within (firstId : UInt32) (alloc : Bool) {B : Nat} :
    ∀ (ks : BlockAlloc (AggregateKernel V)) (is : List Nat), ks.Within B →
      (∀ i ∈ is, (firstId + UInt32.ofNat i).toNat / entriesPerBlock ≤ B) →
      (getKernels firstId alloc ks is).2.Within B
  | _, [], hw, _ => hw
  | ks, i :: is, hw, hi => by
    have hw₁ := hw.get AggregateKernel.init alloc (hi i (.head _))
    simp only [getKernels]
    split_ifs
    · exact getKernels_within firstId alloc _ is hw₁ fun j hj => hi j (.tail _ hj)
    · exact hw₁

/-- `allocKernels` keeps the bounds: the kernels it fetches lie past the old counter and up to
the new one, which the node it returns has its kernels below. -/
theorem allocKernels_bounded (hb : db.Bounded) (he : db.trie.Allocated e) (alloc : Bool) :
    (db.allocKernels e alloc).2.Bounded ∧
      ∀ x, (db.allocKernels e alloc).1 = some x → (db.allocKernels e alloc).2.KernelsBelow x := by
  have hks : (getKernels (UInt32.ofNat (db.numKernelEntries + 1)) alloc db.kernels
      (List.range db.aggrAttributes.length)).2.Within
        ((db.numKernelEntries + db.aggrAttributes.length) / entriesPerBlock) :=
    getKernels_within _ alloc _ _ (hb.kernels.mono (Nat.div_le_div_right (Nat.le_add_right _ _)))
      fun i hi => Nat.div_le_div_right ((toNat_firstId_add_le _ i).trans
        (by have := List.mem_range.mp hi; omega))
  -- the node given kernels has them just past the old counter
  have hfirst : ∀ a < db.aggrAttributes.length, (UInt32.ofNat (db.numKernelEntries + 1)).toNat + a ≤
      db.numKernelEntries + db.aggrAttributes.length := fun a ha => by
    have := Nat.mod_le (db.numKernelEntries + 1) (2 ^ 32)
    rw [toNat_uint32_ofNat]
    omega
  unfold allocKernels
  dsimp only
  split_ifs with h0
  · refine ⟨⟨hb.trie, hks, fun p hp hk => ?_⟩, fun x hx => ?_⟩
    · by_cases hpe : p = e
      · subst hpe
        exact fun a ha => by simpa [node] using hfirst a ha
      · refine (hb.kId p hp ?_).of_kId ?_ rfl (Nat.le_add_right _ _)
        · simpa [node, hpe] using hk
        · simp [node, hpe]
    · obtain rfl := Option.some.inj hx
      exact fun a ha => by simpa [node] using hfirst a ha
  · exact ⟨⟨hb.trie, hks, fun p hp hk =>
      (hb.kId p hp hk).of_kId rfl rfl (Nat.le_add_right _ _)⟩, fun _ hx => nomatch hx⟩
  · refine ⟨hb, fun x hx => ?_⟩
    obtain rfl := Option.some.inj hx
    rcases not_and_or.mp h0 with hk | hn
    · exact hb.kId _ he hk
    · exact fun a ha => absurd (Nat.lt_of_le_of_lt (Nat.zero_le a) ha) hn

/-- `find_entry` keeps the bounds, and the node it returns has its kernels below the counter. -/
theorem findEntry_bounded (h : TrieInv db.trie db.numTrieEntries) (hb : db.Bounded)
    (key : List UInt8) (alloc : Bool) :
    (db.findEntry key alloc).2.Bounded ∧
      ∀ x, (db.findEntry key alloc).1 = some x → (db.findEntry key alloc).2.KernelsBelow x := by
  have hg₀ := trieGrown_get h 0 alloc
  have hb₀ := hb.trieGrown hg₀ (hb.trie.get _ alloc (by simp))
  -- the walk from the root keeps the bounds and ends at an allocated node
  obtain ⟨hbw, hx⟩ : (walk alloc { db with trie := (db.trie.get TrieNode.init 0 alloc).2 }
      (db.trie.get TrieNode.init 0 alloc).1 key).2.Bounded ∧
      ∀ x, (walk alloc { db with trie := (db.trie.get TrieNode.init 0 alloc).2 }
        (db.trie.get TrieNode.init 0 alloc).1 key).1 = some x →
        (walk alloc { db with trie := (db.trie.get TrieNode.init 0 alloc).2 }
          (db.trie.get TrieNode.init 0 alloc).1 key).2.trie.Allocated x := by
    cases hr : (db.trie.get TrieNode.init 0 alloc).1 with
    | none => exact ⟨by simpa only [walk] using hb₀, fun _ hx => by simp [walk] at hx⟩
    | some r =>
      obtain ⟨rfl, h0⟩ := BlockAlloc.get_fst_eq_some hr
      obtain ⟨hg, hf⟩ := walk_spec alloc key hg₀.inv h0 (Nat.zero_le _)
      exact ⟨hb₀.trieGrown hg (walk_within alloc key hg₀.inv h0 (Nat.zero_le _) hb₀.trie),
        fun x hx' => allocated_of_lookupFrom (hg.grows.allocated 0 h0) (hf x hx')⟩
  unfold findEntry
  dsimp only
  split
  · exact ⟨hbw, fun _ hx' => nomatch hx'⟩
  · next x hw => exact allocKernels_bounded hbw (hx x hw) alloc

theorem bounded_new (aggr : List UInt64) (trieBlocks kernelBlocks : Nat) :
    (new aggr trieBlocks kernelBlocks : AggregateDB V).Bounded where
  trie := ((within_of_blocks (fun _ => rfl) 0).get _ true (Nat.zero_div _).le).mono (Nat.zero_le _)
  kernels :=
    ((within_of_blocks (fun _ => rfl) 0).get _ true (Nat.zero_div _).le).mono (Nat.zero_le _)
  kId p hp hk := absurd (by
    -- the root block holds fresh nodes, without kernels
    have hinit := ((BlockAlloc.new TrieNode.init trieBlocks).extends_get _ 0 true).new p hp
      (by simp [BlockAlloc.Allocated, BlockAlloc.new])
    exact congrArg TrieNode.kId hinit.1) hk

variable [Add V]

theorem addValues_within (e a : Nat) (x : UInt64) (alloc : Bool) {B : Nat} :
    ∀ (db : AggregateDB V) (imms : List (Immediate V)),
      ((db.node e).kId.toNat + a) / entriesPerBlock ≤ B → db.kernels.Within B →
      (addValues e a x alloc db imms).kernels.Within B
  | _, [], _, hw => hw
  | db, i :: is, hk, hw => by
    have hw₁ := hw.get AggregateKernel.init alloc hk
    unfold addValues
    split_ifs
    · refine addValues_within e a x alloc _ is hk ?_
      split
      exacts [hw₁, hw₁]
    · exact addValues_within e a x alloc db is hk hw

theorem updateKernels_within (e : Nat) (alloc : Bool) (imms : List (Immediate V)) {B : Nat} :
    ∀ (a : Nat) (xs : List UInt64) (db : AggregateDB V),
      (∀ a' < xs.length, ((db.node e).kId.toNat + (a + a')) / entriesPerBlock ≤ B) →
      db.kernels.Within B → (updateKernels e alloc imms a xs db).kernels.Within B
  | _, [], _, _, hw => hw
  | a, x :: xs, db, hk, hw => by
    have hnode : (addValues e a x alloc db imms).node e = db.node e := by
      rw [addValues_frame]
      rfl
    simp only [updateKernels]
    refine updateKernels_within e alloc imms (a + 1) xs _ (fun a' ha' => ?_)
      (addValues_within e a x alloc db imms (hk 0 (Nat.succ_pos _)) hw)
    rw [hnode, Nat.add_right_comm, Nat.add_assoc]
    exact hk (a' + 1) (Nat.succ_lt_succ ha')

/-- An ingest keeps the bounds. -/
theorem Bounded.processSnapshot (h : TrieInv db.trie db.numTrieEntries) (hb : db.Bounded)
    (cfg : Config) (c : Host) (snap : SnapshotRecord V) : (db.processSnapshot cfg c snap).Bounded := by
  unfold AggregateDB.processSnapshot
  split_ifs
  · exact hb
  dsimp only
  obtain ⟨hb₁, hfit⟩ := @findEntry_bounded _ _ _
    { db with maxKeylen := max (buildKey cfg c snap).key.length db.maxKeylen } h
    (hb.congr rfl rfl rfl rfl rfl) (buildKey cfg c snap).key (!c.isSignal)
  split
  · exact hb₁.congr rfl rfl rfl rfl rfl
  · next x hx =>
    rw [updateKernels_frame]
    refine ⟨hb₁.trie, updateKernels_within _ _ _ 0 _ _ (fun a' ha' =>
      Nat.div_le_div_right ?_) hb₁.kernels, fun p hp hk => ?_⟩
    · rw [bumpCount_node_kId, Nat.zero_add]
      exact hfit x hx a' ha'
    · exact (hb₁.kId p hp fun he => hk ((bumpCount_node_kId _ x p).trans he)).of_kId
        (bumpCount_node_kId _ x p) rfl le_rfl

end Kernels

variable [DoubleOps V] [Zero V] [Add V] {db : AggregateDB V}

/-- Every state a database reaches keeps the bounds. -/
theorem Reachable.bounded (h : Reachable db) : db.Bounded := by
  induction h with
  | new aggr trieBlocks kernelBlocks => exact bounded_new aggr trieBlocks kernelBlocks
  | processSnapshot cfg c snap hr ih => exact ih.processSnapshot hr.trieInv cfg c snap
  | setStopped _ _ ih | retire _ ih => exact ih.congr rfl rfl rfl rfl rfl
  | clear _ _ => exact ⟨within_of_blocks (fun _ => rfl) _, within_of_blocks (fun _ => rfl) _,
      fun p hp => absurd hp (BlockAlloc.clear_allocated _ p)⟩

/-- In every state a database reaches, neither allocator holds a block past the one of its
counter, `m_num_trie_entries` or `m_num_kernel_entries`, so each holds at most
`⌊N / ENTRIES_PER_BLOCK⌋ + 1` of the blocks `get` can bring in: its memory grows with the ids
handed out. -/
theorem Reachable.blocks_within (h : Reachable db) :
    (∀ p, db.trie.Allocated p → p / entriesPerBlock ≤ db.numTrieEntries / entriesPerBlock) ∧
      (∀ k, db.kernels.Allocated k → k / entriesPerBlock ≤ db.numKernelEntries / entriesPerBlock) ∧
      db.trie.setBelow (maxBlocks + 1) ≤ db.numTrieEntries / entriesPerBlock + 1 ∧
      db.kernels.setBelow (maxBlocks + 1) ≤ db.numKernelEntries / entriesPerBlock + 1 :=
  ⟨fun _ => h.bounded.trie.allocated, fun _ => h.bounded.kernels.allocated,
    h.bounded.trie.setBelow_le _, h.bounded.kernels.setBelow_le _⟩

/-- A database with one aggregated attribute after one ingest of a two-node key. -/
theorem Reachable.blocks_within_one_call :
    let db := (AggregateDB.new [7] 0 0 : AggregateDB Float).processSnapshot ⟨0, [], [(1, 2, 3)], 4⟩
      ⟨false, fun _ => none⟩ ⟨[⟨⟨5, 7⟩, []⟩], [⟨7, 0, 2.5⟩]⟩
    Reachable db ∧
      (∀ p, db.trie.Allocated p → p / entriesPerBlock ≤ db.numTrieEntries / entriesPerBlock) ∧
      (∀ k, db.kernels.Allocated k → k / entriesPerBlock ≤ db.numKernelEntries / entriesPerBlock) ∧
      db.trie.setBelow (maxBlocks + 1) ≤ db.numTrieEntries / entriesPerBlock + 1 ∧
      db.kernels.setBelow (maxBlocks + 1) ≤ db.numKernelEntries / entriesPerBlock + 1 :=
  have hr : Reachable ((AggregateDB.new [7] 0 0 : AggregateDB Float).processSnapshot ⟨0, [], [(1, 2, 3)], 4⟩
      ⟨false, fun _ => none⟩ ⟨[⟨⟨5, 7⟩, []⟩], [⟨7, 0, 2.5⟩]⟩) :=
    .processSnapshot _ _ _ (.new _ _ _)
  ⟨hr, Reachable.blocks_within hr⟩

end AggregateDB

end CaliperAggregate
