import CaliperAggregate.Database
import Mathlib.Order.Interval.Finset.Nat
import Mathlib.Data.Finset.Prod

/-!
# The trie is a tree

What the trie holds is read through `lookup`: from the root, each byte's child as
`m_trie.get(next[b], false)` returns it, so only through allocated blocks. This is the node
`find_entry` reaches along a key without writing, and the walk `recursive_flush` makes.

`TrieInv` is what every state a run reaches keeps of its trie: every allocated block is within
`MAX_BLOCKS`, each non-zero `next[b]` of an allocated node leads to a larger id, at most
`m_num_trie_entries`, no id sits in two slots, the allocated nodes past `m_num_trie_entries` are
untouched, and every id up to it sits in a slot. So the ids along a path increase
(`TrieInv.le_of_lookupFrom`), and the path to a node is unique (`TrieInv.lookupFrom_injective`): the trie is a
tree. Counting slots bounds `m_num_trie_entries` far below `2^32` (`TrieInv.numTrieEntries_lt`), so the
cast at line 224 never wraps.
-/

namespace CaliperAggregate

/-- Child `b` of node `e`: `m_trie.get(next[b], false)` for a non-zero `next[b]`. -/
def child (t : BlockAlloc TrieNode) (e : Nat) (b : UInt8) : Option Nat :=
  if (t.elems e).next b = 0 then none else (t.get TrieNode.init ((t.elems e).next b).toNat false).1

/-- The node reached from `e` along `key`, through allocated nodes. -/
def lookupFrom (t : BlockAlloc TrieNode) : Nat → List UInt8 → Option Nat
  | e, [] => some e
  | e, b :: bs => (child t e b).bind fun c => lookupFrom t c bs

/-- The node reached from the root along `key`. -/
def lookup (t : BlockAlloc TrieNode) (key : List UInt8) : Option Nat :=
  (t.get TrieNode.init 0 false).1.bind fun r => lookupFrom t r key

theorem child_eq_some {t : BlockAlloc TrieNode} {e c : Nat} {b : UInt8} :
    child t e b = some c ↔ (t.elems e).next b ≠ 0 ∧ ((t.elems e).next b).toNat = c ∧
      c / entriesPerBlock < maxBlocks ∧ t.Allocated c := by
  unfold child
  split_ifs with h
  · simp [h]
  · rw [BlockAlloc.get_fst]
    by_cases hc : ((t.elems e).next b).toNat / entriesPerBlock < maxBlocks ∧
        t.Allocated ((t.elems e).next b).toNat
    · rw [if_pos ⟨hc.1, .inl hc.2⟩]
      constructor
      · rintro ⟨⟩
        exact ⟨h, rfl, hc⟩
      · rintro ⟨-, rfl, -⟩
        rfl
    · rw [if_neg fun hc' => hc ⟨hc'.1, hc'.2.resolve_right Bool.false_ne_true⟩]
      simp only [reduceCtorEq, false_iff]
      rintro ⟨-, rfl, hc'⟩
      exact hc hc'

theorem lookupFrom_append (t : BlockAlloc TrieNode) :
    ∀ (e : Nat) (s s' : List UInt8),
      lookupFrom t e (s ++ s') = (lookupFrom t e s).bind fun x => lookupFrom t x s'
  | _, [], _ => rfl
  | e, b :: bs, s' => by
    simp only [List.cons_append, lookupFrom]
    cases child t e b <;> simp [lookupFrom_append t _ bs s']

theorem lookup_eq_some {t : BlockAlloc TrieNode} {key : List UInt8} {x : Nat} :
    lookup t key = some x ↔ t.Allocated 0 ∧ lookupFrom t 0 key = some x := by
  by_cases h0 : t.Allocated 0 <;> simp [lookup, BlockAlloc.get_fst, maxBlocks, entriesPerBlock, h0]

/-- What every state a run reaches keeps of its trie, `N` being `m_num_trie_entries`. -/
structure TrieInv (t : BlockAlloc TrieNode) (N : Nat) : Prop where
  block_le : ∀ p, t.Allocated p → p / entriesPerBlock < maxBlocks
  next_gt : ∀ p b, t.Allocated p → (t.elems p).next b ≠ 0 → p < ((t.elems p).next b).toNat
  next_le : ∀ p b, t.Allocated p → ((t.elems p).next b).toNat ≤ N
  next_inj : ∀ p p' b b', t.Allocated p → t.Allocated p' → (t.elems p).next b ≠ 0 →
    (t.elems p).next b = (t.elems p').next b' → p = p' ∧ b = b'
  fresh : ∀ p, t.Allocated p → N < p → t.elems p = TrieNode.init
  filled : ∀ q, 0 < q → q ≤ N → ∃ p b, t.Allocated p ∧ ((t.elems p).next b).toNat = q

section Tree

variable {t : BlockAlloc TrieNode} {N : Nat}

/-- A path through allocated nodes ends at one. -/
theorem allocated_of_lookupFrom {e x : Nat} (he : t.Allocated e) :
    ∀ {s : List UInt8}, lookupFrom t e s = some x → t.Allocated x
  | [], hs => by cases hs; exact he
  | b :: bs, hs => by
    simp only [lookupFrom, Option.bind_eq_some] at hs
    obtain ⟨c, hc, hs⟩ := hs
    exact allocated_of_lookupFrom (child_eq_some.mp hc).2.2.2 hs

theorem allocated_of_lookup {key : List UInt8} {x : Nat} (hx : lookup t key = some x) :
    t.Allocated x :=
  allocated_of_lookupFrom (lookup_eq_some.mp hx).1 (lookup_eq_some.mp hx).2

/-- Ids increase along a path. -/
theorem TrieInv.le_of_lookupFrom (h : TrieInv t N) {e x : Nat} (he : t.Allocated e) :
    ∀ {s : List UInt8}, lookupFrom t e s = some x → e + s.length ≤ x
  | [], hs => by cases hs; simp
  | b :: bs, hs => by
    simp only [lookupFrom, Option.bind_eq_some] at hs
    obtain ⟨c, hc, hs⟩ := hs
    obtain ⟨hne, rfl, -, hca⟩ := child_eq_some.mp hc
    have := h.next_gt e b he hne
    have := h.le_of_lookupFrom hca hs
    simp only [List.length_cons]
    omega

theorem TrieInv.child_le (h : TrieInv t N) {e c : Nat} {b : UInt8} (he : t.Allocated e)
    (hc : child t e b = some c) : c ≤ N := by
  obtain ⟨-, rfl, -, -⟩ := child_eq_some.mp hc
  exact h.next_le e b he

/-- A path from a node with an id up to `N` ends at one. -/
theorem TrieInv.lookupFrom_le (h : TrieInv t N) {e x : Nat} (he : t.Allocated e) (heN : e ≤ N) :
    ∀ {s : List UInt8}, lookupFrom t e s = some x → x ≤ N
  | [], hs => by cases hs; exact heN
  | b :: bs, hs => by
    simp only [lookupFrom, Option.bind_eq_some] at hs
    obtain ⟨c, hc, hs⟩ := hs
    exact h.lookupFrom_le (child_eq_some.mp hc).2.2.2 (h.child_le he hc) hs

theorem TrieInv.lookup_le (h : TrieInv t N) {key : List UInt8} {x : Nat}
    (hx : lookup t key = some x) : x ≤ N :=
  h.lookupFrom_le (lookup_eq_some.mp hx).1 (Nat.zero_le N) (lookup_eq_some.mp hx).2

/-- The last step of a path ends at its node's parent slot. -/
theorem lookupFrom_concat {e x : Nat} {s : List UInt8} {b : UInt8} :
    lookupFrom t e (s ++ [b]) = some x ↔ ∃ p, lookupFrom t e s = some p ∧ child t p b = some x := by
  rw [lookupFrom_append]
  simp [lookupFrom, Option.bind_eq_some]

/-- Two paths from one node to another are the same path. -/
theorem TrieInv.lookupFrom_injective (h : TrieInv t N) {e : Nat} (he : t.Allocated e) :
    ∀ (x : Nat) {s s' : List UInt8}, lookupFrom t e s = some x → lookupFrom t e s' = some x →
      s = s'
  | x, s, s', hs, hs' => by
    induction s using List.reverseRecOn generalizing x s' with
    | nil =>
      cases hs
      rcases s'.eq_nil_or_concat with rfl | ⟨s'', b', rfl⟩
      · rfl
      · have := h.le_of_lookupFrom he hs'
        simp only [List.concat_eq_append, List.length_append, List.length_singleton] at this
        omega
    | append_singleton s b ih =>
      obtain ⟨p, hp, hc⟩ := lookupFrom_concat.mp hs
      rcases s'.eq_nil_or_concat with rfl | ⟨s'', b', rfl⟩
      · cases hs'
        have := h.le_of_lookupFrom he hs
        simp only [List.length_append, List.length_singleton] at this
        omega
      · rw [List.concat_eq_append] at hs' ⊢
        obtain ⟨p', hp', hc'⟩ := lookupFrom_concat.mp hs'
        obtain ⟨hne, hx, -, -⟩ := child_eq_some.mp hc
        obtain ⟨hne', hx', -, -⟩ := child_eq_some.mp hc'
        obtain ⟨rfl, rfl⟩ := h.next_inj p p' b b' (allocated_of_lookupFrom he hp)
          (allocated_of_lookupFrom he hp') hne (UInt32.toNat.inj (hx.trans hx'.symm))
        rw [ih p s'' hp hp']

theorem uint8_ofNat_toNat (b : UInt8) : UInt8.ofNat b.toNat = b :=
  UInt8.toNat.inj (by
    rw [show UInt8.ofNat b.toNat = b.toNat.toUInt8 from rfl, toNat_toUInt8,
      Nat.mod_eq_of_lt b.toNat_lt_size])

/-- `N` ids, each the value of one of `M * k` slots, are at most `M * k`. -/
theorem le_of_covered {N M k : Nat} (f : Nat × Nat → Nat)
    (h : ∀ q, 0 < q → q ≤ N → ∃ p i, p < M ∧ i < k ∧ f (p, i) = q) : N ≤ M * k := by
  have hsub : Finset.Icc 1 N ⊆ (Finset.range M ×ˢ Finset.range k).image f := fun q hq => by
    obtain ⟨p, i, hp, hi, rfl⟩ := h q (Finset.mem_Icc.mp hq).1 (Finset.mem_Icc.mp hq).2
    exact Finset.mem_image.mpr ⟨(p, i), by simp [hp, hi], rfl⟩
  calc N = (Finset.Icc 1 N).card := by simp
    _ ≤ _ := Finset.card_le_card hsub
    _ ≤ (Finset.range M ×ˢ Finset.range k).card := Finset.card_image_le
    _ = M * k := by simp

/-- Every id up to `N` sits in a slot of an allocated node, and there are `2048 * 1024 * 256`
such slots. -/
theorem TrieInv.numTrieEntries_le (h : TrieInv t N) :
    N ≤ maxBlocks * entriesPerBlock * 256 := by
  refine le_of_covered (fun pi => ((t.elems pi.1).next (UInt8.ofNat pi.2)).toNat) fun q hq1 hqN => ?_
  obtain ⟨p, b, hp, hpq⟩ := h.filled q hq1 hqN
  refine ⟨p, b.toNat, Nat.lt_mul_of_div_lt (h.block_le p hp) (by decide), b.toNat_lt_size, ?_⟩
  show ((t.elems p).next (UInt8.ofNat b.toNat)).toNat = q
  rwa [uint8_ofNat_toNat]

theorem TrieInv.numTrieEntries_lt (h : TrieInv t N) : N + 1 < 2 ^ 32 - 1 := by
  have := h.numTrieEntries_le
  simp only [maxBlocks, entriesPerBlock] at this
  omega

end Tree

end CaliperAggregate
