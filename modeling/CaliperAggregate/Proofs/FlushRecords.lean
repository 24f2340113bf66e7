import CaliperAggregate.Flush
import CaliperAggregate.Proofs.TrieSteps
import Mathlib.Data.List.Lex

/-!
# What a flush writes

`recursive_flush` fetches a child with `m_trie.get(next[b], false)`, which is `child`, so with
fuel to spare it writes exactly the paths from its node to a node with a positive count, each with
the node it reaches (`mem_recursiveFlush`). Ids grow along the edges of every trie a database
reaches, so the fuel `flush` gives, one more than the number of ids, is to spare. The walk visits
a node before its children and the children by byte, so the keys come out in lexicographic order
(`recursiveFlush_sorted`), and as the path to a node is unique no node is written twice
(`flush_records`).
-/

namespace CaliperAggregate

theorem lex_lt_irrefl : ∀ l : List UInt8, ¬ List.Lex (· < ·) l l
  | [], h => nomatch h
  | _ :: l, h => by
    cases h with
    | cons h => exact lex_lt_irrefl l h
    | rel h => exact Nat.lt_irrefl _ h

theorem uint8_ofNat_lt {i j : Nat} (hj : j < 256) (h : i < j) : UInt8.ofNat i < UInt8.ofNat j := by
  show (UInt8.ofNat i).toNat < (UInt8.ofNat j).toNat
  simp [UInt8.toNat, UInt8.ofNat]
  omega

/-- A path from `e` is empty or starts with one of the 256 bytes. -/
theorem exists_path_iff {t : BlockAlloc TrieNode} {e x : Nat} {key K : List UInt8} {P : Nat → Prop} :
    (∃ s, K = key ++ s ∧ lookupFrom t e s = some x ∧ P x) ↔ (K = key ∧ x = e ∧ P e) ∨
      ∃ i < 256, ∃ c, child t e (UInt8.ofNat i) = some c ∧
        ∃ s, K = key ++ [UInt8.ofNat i] ++ s ∧ lookupFrom t c s = some x ∧ P x := by
  constructor
  · rintro ⟨_ | ⟨b, s⟩, rfl, hs, hp⟩
    · cases hs
      exact .inl ⟨by simp, rfl, hp⟩
    · simp only [lookupFrom, Option.bind_eq_some] at hs
      obtain ⟨c, hc, hs⟩ := hs
      exact .inr ⟨b.toNat, b.toNat_lt_size, c, by rwa [uint8_ofNat_toNat], s,
        by rw [uint8_ofNat_toNat]; simp, hs, hp⟩
  · rintro (⟨rfl, rfl, hp⟩ | ⟨i, -, c, hc, s, rfl, hs, hp⟩)
    · exact ⟨[], by simp, rfl, hp⟩
    · exact ⟨UInt8.ofNat i :: s, by simp, by simp [lookupFrom, hc, hs], hp⟩

namespace AggregateDB

variable {V : Type} {db : AggregateDB V}

theorem recursiveFlush_none (db : AggregateDB V) :
    ∀ (fuel : Nat) (key : List UInt8), db.recursiveFlush fuel key none = []
  | 0, _ => rfl
  | _ + 1, _ => rfl

/-- `recursive_flush` at node `e`: the node, then each child in byte order. -/
theorem recursiveFlush_succ (db : AggregateDB V) (fuel : Nat) (key : List UInt8) (e : Nat) :
    db.recursiveFlush (fuel + 1) key (some e) =
      (if 0 < (db.node e).count then [(key, e)] else []) ++
        (List.range 256).flatMap fun i =>
          db.recursiveFlush fuel (key ++ [UInt8.ofNat i]) (child db.trie e (UInt8.ofNat i)) := by
  rw [recursiveFlush]
  congr 1
  refine List.flatMap_congr fun i _ => ?_
  by_cases h : (db.trie.elems e).next (UInt8.ofNat i) = 0 <;>
    simp [child, node, h, recursiveFlush_none]

/-- Every key `recursive_flush` writes extends the key it starts from. -/
theorem prefix_of_mem_recursiveFlush (db : AggregateDB V) :
    ∀ (fuel : Nat) (key : List UInt8) (o : Option Nat), ∀ r ∈ db.recursiveFlush fuel key o,
      ∃ s, r.1 = key ++ s
  | 0, _, _, _, hr => nomatch hr
  | _ + 1, _, none, _, hr => nomatch hr
  | fuel + 1, key, some e, r, hr => by
    rw [recursiveFlush_succ] at hr
    simp only [List.mem_append, List.mem_flatMap] at hr
    rcases hr with hr | ⟨i, -, hr⟩
    · split_ifs at hr
      · exact ⟨[], by simp [List.mem_singleton.mp hr]⟩
      · nomatch hr
    · obtain ⟨s, hs⟩ := prefix_of_mem_recursiveFlush db fuel _ _ r hr
      exact ⟨UInt8.ofNat i :: s, by simp [hs]⟩

/-- `recursive_flush` writes its keys in lexicographic order: a node before its children, and the
children in byte order. -/
theorem recursiveFlush_sorted (db : AggregateDB V) :
    ∀ (fuel : Nat) (key : List UInt8) (o : Option Nat),
      (db.recursiveFlush fuel key o).Pairwise fun r r' => List.Lex (· < ·) r.1 r'.1
  | 0, _, _ => .nil
  | _ + 1, _, none => .nil
  | fuel + 1, key, some e => by
    rw [recursiveFlush_succ, List.pairwise_append, List.pairwise_flatMap]
    refine ⟨by split_ifs <;> simp, ⟨fun i _ => recursiveFlush_sorted db fuel _ _, ?_⟩, ?_⟩
    · -- the children's records, by byte
      refine (List.pairwise_lt_range 256).imp_of_mem fun {i j} _ hj hij r hr r' hr' => ?_
      obtain ⟨s, hs⟩ := prefix_of_mem_recursiveFlush db fuel _ _ r hr
      obtain ⟨s', hs'⟩ := prefix_of_mem_recursiveFlush db fuel _ _ r' hr'
      rw [hs, hs', List.append_assoc, List.append_assoc]
      exact List.Lex.append_left _ (.rel (uint8_ofNat_lt (List.mem_range.mp hj) hij)) key
    · -- the node's record, before its children's
      intro r hr r' hr'
      split_ifs at hr
      · obtain rfl := List.mem_singleton.mp hr
        obtain ⟨i, -, hr'⟩ := List.mem_flatMap.mp hr'
        obtain ⟨s, hs⟩ := prefix_of_mem_recursiveFlush db fuel _ _ r' hr'
        rw [hs, List.append_assoc]
        simpa using List.Lex.append_left (· < ·) (.nil (a := UInt8.ofNat i) (l := s)) key
      · nomatch hr

/-- With fuel past every id, `recursive_flush` from node `e` under `key` writes exactly the paths
`s` from `e` to a node with a positive count, each under `key ++ s` with the node it reaches. -/
theorem mem_recursiveFlush (h : TrieInv db.trie db.numTrieEntries) :
    ∀ (fuel : Nat) (key : List UInt8) (e : Nat), db.trie.Allocated e →
      db.numTrieEntries < e + fuel → ∀ K x, (K, x) ∈ db.recursiveFlush fuel key (some e) ↔
        ∃ s, K = key ++ s ∧ lookupFrom db.trie e s = some x ∧ 0 < (db.node x).count
  | 0, key, e, he, hN, K, x => by
    -- past every id the node is fresh: no count, no children
    have hinit := h.fresh e he (by omega)
    simp only [recursiveFlush, List.not_mem_nil, false_iff]
    rintro ⟨_ | ⟨b, s⟩, -, hs, hc⟩
    · cases hs
      simp [node, hinit, TrieNode.init] at hc
    · simp [lookupFrom, child, hinit, TrieNode.init] at hs
  | fuel + 1, key, e, he, hN, K, x => by
    rw [recursiveFlush_succ, exists_path_iff (P := fun x => 0 < (db.node x).count)]
    simp only [List.mem_append, List.mem_flatMap, List.mem_range]
    refine or_congr (by split_ifs <;> simp_all) (exists_congr fun i => and_congr_right fun _ => ?_)
    cases hc : child db.trie e (UInt8.ofNat i) with
    | none => simp [recursiveFlush_none]
    | some c =>
      obtain ⟨hne, hcn, -, hca⟩ := child_eq_some.mp hc
      have := h.next_gt e _ he hne
      rw [mem_recursiveFlush h fuel _ c hca (by omega)]
      simp

/-- `flush`'s root: node 0, when its block is allocated. -/
theorem root_get (t : BlockAlloc TrieNode) :
    (t.get TrieNode.init 0 false).1 = if t.Allocated 0 then some 0 else none := by
  by_cases h0 : t.Allocated 0 <;> simp [BlockAlloc.get_fst, maxBlocks, h0]

variable [DoubleOps V] [Zero V] [Add V]

/-- In every state a database reaches, `flush` writes one record for each node with a positive
count that the root reaches through allocated nodes, under its path from the root, and no other;
the keys come in lexicographic order, the order of the walk by byte, and no node is written
twice. -/
theorem flush_records (h : Reachable db) :
    (∀ K x, (K, x) ∈ db.flush ↔ lookup db.trie K = some x ∧ 0 < (db.node x).count) ∧
      (db.flush.map Prod.fst).Sorted (List.Lex (· < ·)) ∧ (db.flush.map Prod.snd).Nodup := by
  have hinv := h.trieInv
  -- the records are the paths from the root
  have hmem : ∀ K x, (K, x) ∈ db.flush ↔ lookup db.trie K = some x ∧ 0 < (db.node x).count := by
    intro K x
    unfold flush
    rw [root_get]
    split_ifs with h0
    · rw [mem_recursiveFlush hinv _ [] 0 h0 (by omega), lookup_eq_some]
      simp [h0]
    · simp [recursiveFlush_none, lookup_eq_some, h0]
  refine ⟨hmem, List.pairwise_map.mpr (recursiveFlush_sorted db _ _ _), List.pairwise_map.mpr ?_⟩
  -- two records of one node have one key
  refine (recursiveFlush_sorted db _ _ _).imp_of_mem fun {r r'} hr hr' hlt heq => ?_
  have hl := (hmem r.1 r.2).mp hr
  have hl' := (hmem r'.1 r'.2).mp hr'
  rw [← heq] at hl'
  obtain ⟨h0, hs⟩ := lookup_eq_some.mp hl.1
  have := hinv.lookupFrom_injective h0 r.2 hs (lookup_eq_some.mp hl'.1).2
  exact lex_lt_irrefl _ (this ▸ hlt)

theorem flush_records_after_ingest :
    Reachable ((AggregateDB.new [] 0 0 : AggregateDB Float).processSnapshot ⟨0, [], [], 0⟩
      ⟨false, fun _ => none⟩ ⟨[⟨⟨5, 7⟩, []⟩], []⟩) ∧
    (∀ K x, (K, x) ∈ ((AggregateDB.new [] 0 0 : AggregateDB Float).processSnapshot ⟨0, [], [], 0⟩
        ⟨false, fun _ => none⟩ ⟨[⟨⟨5, 7⟩, []⟩], []⟩).flush ↔
      lookup ((AggregateDB.new [] 0 0 : AggregateDB Float).processSnapshot ⟨0, [], [], 0⟩
        ⟨false, fun _ => none⟩ ⟨[⟨⟨5, 7⟩, []⟩], []⟩).trie K = some x ∧
      0 < (((AggregateDB.new [] 0 0 : AggregateDB Float).processSnapshot ⟨0, [], [], 0⟩
        ⟨false, fun _ => none⟩ ⟨[⟨⟨5, 7⟩, []⟩], []⟩).node x).count) ∧
    (((AggregateDB.new [] 0 0 : AggregateDB Float).processSnapshot ⟨0, [], [], 0⟩
        ⟨false, fun _ => none⟩ ⟨[⟨⟨5, 7⟩, []⟩], []⟩).flush.map Prod.fst).Sorted
      (List.Lex (· < ·)) ∧
    (((AggregateDB.new [] 0 0 : AggregateDB Float).processSnapshot ⟨0, [], [], 0⟩
        ⟨false, fun _ => none⟩ ⟨[⟨⟨5, 7⟩, []⟩], []⟩).flush.map Prod.snd).Nodup :=
  have h := Reachable.processSnapshot _ _ _ (Reachable.new [] 0 0)
  ⟨h, flush_records h⟩

end AggregateDB

end CaliperAggregate
