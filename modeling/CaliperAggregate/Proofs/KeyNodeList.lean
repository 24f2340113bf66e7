import CaliperAggregate.KeyEncoding
import Mathlib.Data.List.Perm.Basic

/-!
# The key node list

With key attributes configured, `process_snapshot` hands `make_tree_entry` the nodes of the
snapshot's parent chains that carry a key attribute, attribute after attribute, and each
attribute's nodes in the reverse of the order the walks meet them (`keyNodeList_eq`).

The first walk counts each attribute's nodes and remembers where each chain first meets one
(`firstWalk_eq`); the prefix sums turn the counts into the ends of the attributes' ranges
(`prefixSums_eq`). The second walk fills each range from its end (`Placed`): it meets the same
nodes, since a chain's start skips none of them (`chainMatches_chainStart`), and a range never
outgrows the room the sums left it (`Room`), so no write lands in another attribute's range.

Counted store by store (`secondWalkWrites`), each position's stores are the indices of its range,
from the end down (`secondWalkWrites_filter`), so the walk stores into each index of
`nodelist[0, tot_entries)` once and into no other (`secondWalk_writes`).
-/

namespace CaliperAggregate

section Walks

variable (kids : List UInt64)

/-- The nodes of `chain` that carry the key attribute at position `a` of `kids`, in chain order. -/
def chainMatches (a : Nat) (chain : List Node) : List Node :=
  chain.filter fun n => kids[a]? = some n.attr

/-- The nodes of every entry's chain that carry the key attribute at position `a`, in the order the
walks meet them. -/
def entryMatches (a : Nat) (entries : List NodeEntry) : List Node :=
  entries.flatMap fun e => chainMatches kids a e.chain

theorem chainMatches_nil (b : Nat) : ∀ chain : List Node, chainMatches [] b chain = []
  | [] => rfl
  | n :: ns => by
    rw [chainMatches, List.filter_cons_of_neg (by simp)]
    exact chainMatches_nil b ns

theorem entryMatches_nil (b : Nat) : ∀ entries : List NodeEntry, entryMatches [] b entries = []
  | [] => rfl
  | e :: es => by
    rw [entryMatches, List.flatMap_cons, chainMatches_nil]
    exact entryMatches_nil b es

/-- Where the second walk starts on `chain`: at its first node that carries a key attribute. -/
def chainStart : List Node → Option (List Node)
  | [] => none
  | n :: ns => if n.attr ∈ kids then some (n :: ns) else chainStart ns

/-- Position `b` of `x :: xs`, counted from `a`: `x` at `b = a`, and otherwise a position of
`xs`. -/
theorem getElem?_cons_sub_eq_some {a b : Nat} {x v : UInt64} {xs : List UInt64} :
    (a ≤ b ∧ (x :: xs)[b - a]? = some v) ↔
      (b = a ∧ x = v) ∨ (a + 1 ≤ b ∧ xs[b - (a + 1)]? = some v) := by
  rcases Nat.lt_trichotomy b a with h | rfl | h
  · simp [Nat.not_le.mpr h, Nat.ne_of_lt h, show ¬ a + 1 ≤ b by omega]
  · simp
  · obtain ⟨k, rfl⟩ := Nat.exists_eq_add_of_lt h
    simp [show a + k + 1 - a = k + 1 by omega, show a + k + 1 - (a + 1) = k by omega, h.le,
      show a + k + 1 ≠ a by omega]

theorem countNode_fst (here : List Node) (node : Node) :
    ∀ (a : Nat) (xs : List UInt64) (counts : Nat → Nat) (start : Option (List Node)) (b : Nat),
      (countNode here node a xs counts start).1 b =
        counts b + if a ≤ b ∧ xs[b - a]? = some node.attr then 1 else 0
  | a, [], counts, start, b => by simp [countNode]
  | a, x :: xs, counts, start, b => by
    rw [countNode]
    simp only [getElem?_cons_sub_eq_some]
    by_cases hb : b = a <;> split_ifs <;> simp_all [countNode_fst, Function.update_apply]

theorem countNode_snd (here : List Node) (node : Node) :
    ∀ (a : Nat) (xs : List UInt64) (counts : Nat → Nat) (start : Option (List Node)),
      (countNode here node a xs counts start).2 =
        if node.attr ∈ xs then some (start.getD here) else start
  | a, [], counts, start => by simp [countNode]
  | a, x :: xs, counts, start => by
    by_cases hx : x = node.attr
    · simp [countNode, hx, countNode_snd here node (a + 1) xs]
    · simp [countNode, hx, countNode_snd here node (a + 1) xs, Ne.symm hx]

/-- The first walk along a chain counts each key attribute's nodes on it and keeps the first start
it finds. -/
theorem countChain_eq : ∀ (chain : List Node) (counts : Nat → Nat) (start : Option (List Node)),
    (countChain kids chain counts start).1 = (fun b => counts b + (chainMatches kids b chain).length) ∧
    (countChain kids chain counts start).2 = start.or (chainStart kids chain)
  | [], counts, start => by simp [countChain, chainMatches, chainStart]
  | n :: ns, counts, start => by
    simp only [countChain]
    rw [(countChain_eq ns _ _).1, (countChain_eq ns _ _).2, countNode_snd]
    constructor
    · funext b
      rw [countNode_fst]
      by_cases hb : kids[b]? = some n.attr <;> simp [chainMatches, List.filter_cons, hb]
      omega
    · by_cases hn : n.attr ∈ kids <;> cases start <;> simp [chainStart, hn]

theorem firstWalk_eq : ∀ (entries : List NodeEntry) (counts : Nat → Nat),
    (firstWalk kids entries counts).1 = (fun b => counts b + (entryMatches kids b entries).length) ∧
    (firstWalk kids entries counts).2 = entries.map fun e => chainStart kids e.chain
  | [], counts => by simp [firstWalk, entryMatches]
  | e :: es, counts => by
    simp only [firstWalk]
    rw [(firstWalk_eq es _).1, (firstWalk_eq es _).2, (countChain_eq kids _ _ _).1,
      (countChain_eq kids _ _ _).2]
    refine ⟨funext fun b => ?_, by simp⟩
    simp only [entryMatches, List.flatMap_cons, List.length_append]
    omega

/-- Starting the second walk at `start_nodes[i]` skips no node of a key attribute. -/
theorem chainMatches_chainStart (b : Nat) : ∀ chain : List Node,
    chainMatches kids b ((chainStart kids chain).getD []) = chainMatches kids b chain
  | [] => rfl
  | n :: ns => by
    by_cases hn : n.attr ∈ kids
    · simp [chainStart, hn]
    · have hb : ¬ kids[b]? = some n.attr := fun h => hn (List.getElem?_mem h)
      rw [chainStart, if_neg hn, chainMatches_chainStart b ns]
      simp [chainMatches, List.filter_cons, hb]

/-- The sum of `f` below `k`. -/
def psum (f : Nat → Nat) : Nat → Nat
  | 0 => 0
  | k + 1 => psum f k + f k

theorem psum_succ (f : Nat → Nat) (k : Nat) : psum f (k + 1) = psum f k + f k := rfl

/-- Lines 399-400 turn the counts into their running sums. -/
theorem prefixSums_eq (f : Nat → Nat) : ∀ (m s : Nat) (ks : Nat → Nat), 0 < s →
    (∀ c < s, ks c = psum f (c + 1)) → (∀ c, s ≤ c → ks c = f c) →
    ∀ b < s + m, prefixSums ks (List.range' s m) b = psum f (b + 1)
  | 0, s, ks, _, hlt, _, b, hb => by simpa [prefixSums] using hlt b hb
  | m + 1, s, ks, hs, hlt, hge, b, hb => by
    rw [List.range'_succ, prefixSums]
    refine prefixSums_eq f m (s + 1) _ (by omega) (fun c hc => ?_) (fun c hc => ?_) b (by omega)
    · rw [Function.update_apply]
      split_ifs with h
      · subst h
        rw [hge c le_rfl, hlt (c - 1) (by omega), Nat.sub_add_cancel hs, psum_succ, Nat.add_comm]
      · exact hlt c (by omega)
    · rw [Function.update_apply, if_neg (by omega), hge c (by omega)]

/-- The second walk's state holds, right below `ps a` for each key attribute position `a`, the
nodes `R a` placed there so far, the last placed first, and counts them in `filled[a]`. -/
def Placed (ps : Nat → Nat) (R : Nat → List Node) (acc : (Nat → Option Node) × (Nat → Nat)) :
    Prop :=
  ∀ a < kids.length, acc.2 a = (R a).length ∧
    ∀ i < (R a).length, acc.1 (ps a - (R a).length + i) = (R a)[i]?

/-- The room the prefix sums leave for the lists `F`: each fits below its `ps a` and above the
`ps` of every earlier position. -/
def Room (ps : Nat → Nat) (F : Nat → List Node) : Prop :=
  ∀ a < kids.length, (F a).length ≤ ps a ∧ ∀ a' < a, ps a' + (F a).length ≤ ps a

theorem placed_write {ps : Nat → Nat} {F R : Nat → List Node} (hroom : Room kids ps F) {a : Nat}
    (ha : a < kids.length) (hRa : (R a).length + 1 ≤ (F a).length)
    (hR : ∀ b < kids.length, (R b).length ≤ (F b).length)
    {acc : (Nat → Option Node) × (Nat → Nat)} (hp : Placed kids ps R acc) (node : Node) :
    Placed kids ps (Function.update R a (node :: R a))
      (Function.update acc.1 (ps a - (acc.2 a + 1)) (some node),
        Function.update acc.2 a (acc.2 a + 1)) := by
  intro b hb
  dsimp only
  obtain ⟨hf, hv⟩ := hp b hb
  have hfa := (hp a ha).1
  have hFa := (hroom a ha).1
  by_cases hba : b = a
  · subst hba
    rw [Function.update_same b (node :: R b) R, Function.update_same b _ acc.2]
    refine ⟨by simp [hf], fun i hi => ?_⟩
    rw [List.length_cons] at hi ⊢
    cases i with
    | zero => simp [Function.update_apply, hf]
    | succ i =>
      rw [Function.update_noteq (by omega), show ps b - ((R b).length + 1) + (i + 1) =
        ps b - (R b).length + i by omega]
      simpa using hv i (by omega)
  · rw [Function.update_noteq hba (node :: R a) R, Function.update_noteq hba _ acc.2]
    refine ⟨hf, fun i hi => ?_⟩
    have hRb := hR b hb
    rw [Function.update_noteq, hv i hi]
    rcases Nat.lt_or_gt_of_ne hba with h | h
    · have := (hroom a ha).2 b h
      have := (hroom b hb).1
      omega
    · have := (hroom b hb).2 a h
      omega

theorem placeNode_placed {ps : Nat → Nat} {F : Nat → List Node} (hroom : Room kids ps F)
    (node : Node) : ∀ (a : Nat) (xs : List UInt64) (R R' : Nat → List Node)
      (acc : (Nat → Option Node) × (Nat → Nat)), kids.drop a = xs →
      (∀ b < kids.length, R' b = if a ≤ b ∧ kids[b]? = some node.attr then node :: R b else R b) →
      (∀ b < kids.length, (R' b).length ≤ (F b).length) →
      Placed kids ps R acc → Placed kids ps R' (placeNode ps node a xs acc)
  | a, [], R, R', acc, hdrop, hR', _, hp => by
    have ha : kids.length ≤ a := List.drop_eq_nil_iff.mp hdrop
    intro b hb
    rw [hR' b hb, if_neg (by omega)]
    exact hp b hb
  | a, x :: xs, R, R', acc, hdrop, hR', hF, hp => by
    have hx : kids[a]? = some x := by rw [← Nat.add_zero a, ← List.getElem?_drop, hdrop]; simp
    have ha : a < kids.length := (List.getElem?_eq_some_iff.mp hx).1
    have hdrop' : kids.drop (a + 1) = xs := by
      rw [← List.drop_drop, hdrop, List.drop_one, List.tail_cons]
    have hle : ∀ b < kids.length, (R b).length ≤ (F b).length := fun b hb => by
      have := hF b hb
      rw [hR' b hb] at this
      split_ifs at this
      · exact (Nat.le_succ _).trans this
      · exact this
    simp only [placeNode]
    by_cases hm : x = node.attr
    · rw [if_pos hm]
      have hRa : (R a).length + 1 ≤ (F a).length := by
        simpa [hR' a ha, hx, hm] using hF a ha
      refine placeNode_placed hroom node (a + 1) xs (Function.update R a (node :: R a)) R' _ hdrop'
        (fun b hb => ?_) hF (placed_write kids hroom ha hRa hle hp node)
      rw [hR' b hb]
      by_cases hba : b = a
      · subst hba
        rw [if_pos ⟨le_rfl, hx.trans (congrArg some hm)⟩, if_neg fun h => absurd h.1 (by omega),
          Function.update_same]
      · rw [Function.update_noteq hba]
        simp only [show a + 1 ≤ b ↔ a ≤ b by omega]
    · rw [if_neg hm]
      refine placeNode_placed hroom node (a + 1) xs R R' acc hdrop' (fun b hb => ?_) hF hp
      rw [hR' b hb]
      by_cases hba : b = a
      · subst hba
        rw [if_neg fun h => hm (Option.some.inj (hx.symm.trans h.2)),
          if_neg fun h => absurd h.1 (by omega)]
      · simp only [show a + 1 ≤ b ↔ a ≤ b by omega]

theorem placeChain_placed {ps : Nat → Nat} {F : Nat → List Node} (hroom : Room kids ps F) :
    ∀ (c : List Node) (R : Nat → List Node) (acc : (Nat → Option Node) × (Nat → Nat)),
      (∀ b < kids.length, (chainMatches kids b c).length + (R b).length ≤ (F b).length) →
      Placed kids ps R acc →
      Placed kids ps (fun b => (chainMatches kids b c).reverse ++ R b) (placeChain kids ps c acc)
  | [], R, acc, _, hp => by simpa [placeChain, chainMatches] using hp
  | n :: ns, R, acc, hlen, hp => by
    have hsplit : ∀ b, (chainMatches kids b (n :: ns)).reverse ++ R b =
        (chainMatches kids b ns).reverse ++
          (if kids[b]? = some n.attr then n :: R b else R b) := fun b => by
      by_cases hb : kids[b]? = some n.attr <;> simp [chainMatches, List.filter_cons, hb]
    have hlen' : ∀ b < kids.length, (chainMatches kids b ns).length +
        (if kids[b]? = some n.attr then n :: R b else R b).length ≤ (F b).length := fun b hb => by
      simpa [hsplit] using (congrArg List.length (hsplit b)).symm.trans_le
        (by simpa using hlen b hb)
    have hnode := placeNode_placed kids hroom n 0 kids R _ acc (List.drop_zero _)
      (fun b _ => by simp) (fun b hb => (Nat.le_add_left _ _).trans (hlen' b hb)) hp
    simpa only [placeChain, hsplit] using placeChain_placed hroom ns _ _ hlen' hnode

theorem secondWalk_placed {ps : Nat → Nat} {F : Nat → List Node} (hroom : Room kids ps F) :
    ∀ (starts : List (Option (List Node))) (R : Nat → List Node)
      (acc : (Nat → Option Node) × (Nat → Nat)),
      (∀ b < kids.length, (starts.flatMap fun s => chainMatches kids b (s.getD [])).length +
        (R b).length ≤ (F b).length) →
      Placed kids ps R acc →
      Placed kids ps (fun b => (starts.flatMap fun s => chainMatches kids b (s.getD [])).reverse ++ R b)
        (secondWalk kids ps starts acc)
  | [], R, acc, _, hp => by simpa [secondWalk] using hp
  | none :: ss, R, acc, hlen, hp => by
    simpa [secondWalk, chainMatches] using
      secondWalk_placed hroom ss R acc (by simpa [chainMatches] using hlen) hp
  | some c :: ss, R, acc, hlen, hp => by
    have hc := placeChain_placed kids hroom c R acc (fun b hb => by
      have := hlen b hb
      simp only [List.flatMap_cons, Option.getD_some, List.length_append] at this
      omega) hp
    simpa [secondWalk, List.append_assoc] using secondWalk_placed hroom ss _ _ (fun b hb => by
      have := hlen b hb
      simp only [List.flatMap_cons, Option.getD_some, List.length_append, List.length_reverse] at this ⊢
      omega) hc

theorem psum_mono (f : Nat → Nat) {a b : Nat} (h : a ≤ b) : psum f a ≤ psum f b := by
  induction b with
  | zero => rw [Nat.le_zero.mp h]
  | succ b ih =>
    rcases Nat.lt_or_eq_of_le h with h | rfl
    · exact (ih (by omega)).trans (Nat.le_add_right _ _)
    · exact le_rfl

theorem map_range_psum {arr : Nat → Option Node} {G : Nat → List Node} {f : Nat → Nat}
    (hf : ∀ b, (G b).length = f b) :
    ∀ n : Nat, (∀ b < n, ∀ i < f b, arr (psum f b + i) = (G b)[i]?) →
      (List.range (psum f n)).map arr = (List.range n).flatMap fun b => (G b).map some
  | 0, _ => rfl
  | n + 1, h => by
    rw [psum_succ, List.range_add, List.map_append,
      map_range_psum hf n (fun b hb => h b (by omega)),
      List.range_succ, List.flatMap_append, List.flatMap_singleton, List.map_map]
    congr 1
    refine List.ext_getElem? fun i => ?_
    by_cases hi : i < f n
    · simp [hi, h n (by omega) i hi, hf]
    · rw [List.getElem?_eq_none (by simpa using Nat.not_lt.mp hi),
        List.getElem?_eq_none (by simpa [hf] using Nat.not_lt.mp hi)]

section Run

variable (entries : List NodeEntry)

/-- The chains from the first walk's starts meet the nodes the whole chains meet. -/
theorem flatMap_firstWalk_starts (b : Nat) :
    ((firstWalk kids entries fun _ => 0).2.flatMap fun s => chainMatches kids b (s.getD [])) =
      entryMatches kids b entries := by
  simp [(firstWalk_eq kids entries _).2, List.flatMap_map, chainMatches_chainStart, entryMatches]

/-- After the prefix sums, `key_entries[b]` is the number of nodes of the positions up to `b`. -/
theorem prefixSums_firstWalk : ∀ b < kids.length,
    prefixSums (firstWalk kids entries fun _ => 0).1 (List.range' 1 (kids.length - 1)) b =
      psum (fun b => (entryMatches kids b entries).length) (b + 1) := fun b hb =>
  prefixSums_eq _ _ 1 _ Nat.one_pos
    (fun c hc => by simp [Nat.lt_one_iff.mp hc, (firstWalk_eq kids entries _).1, psum])
    (fun c _ => by simp [(firstWalk_eq kids entries _).1]) b (by omega)

/-- `tot_entries` is the number of nodes of all positions. -/
theorem prefixSums_firstWalk_last :
    prefixSums (firstWalk kids entries fun _ => 0).1 (List.range' 1 (kids.length - 1))
        (kids.length - 1) = psum (fun b => (entryMatches kids b entries).length) kids.length := by
  rcases Nat.eq_zero_or_pos kids.length with h0 | hpos
  · obtain rfl := List.eq_nil_of_length_eq_zero h0
    simp [prefixSums, (firstWalk_eq [] entries _).1, entryMatches_nil, psum]
  · rw [prefixSums_firstWalk kids entries _ (by omega), Nat.sub_add_cancel hpos]

/-- After the second walk, the range of position `b` holds `b`'s nodes in the reverse of the order
the walks meet them. -/
theorem secondWalk_firstWalk_fill : ∀ b < kids.length, ∀ i < (entryMatches kids b entries).length,
    (secondWalk kids
        (prefixSums (firstWalk kids entries fun _ => 0).1 (List.range' 1 (kids.length - 1)))
        (firstWalk kids entries fun _ => 0).2 (fun _ => none, fun _ => 0)).1
      (psum (fun b => (entryMatches kids b entries).length) b + i) =
      (entryMatches kids b entries).reverse[i]? := by
  have hps := prefixSums_firstWalk kids entries
  have hroom : Room kids (prefixSums (firstWalk kids entries fun _ => 0).1
      (List.range' 1 (kids.length - 1))) (fun b => (entryMatches kids b entries).reverse) :=
    fun a ha => by
      rw [hps a ha, psum_succ, List.length_reverse]
      refine ⟨Nat.le_add_left _ _, fun a' ha' => ?_⟩
      rw [hps a' (by omega)]
      exact Nat.add_le_add_right (psum_mono _ ha') _
  have hplaced := secondWalk_placed kids hroom (firstWalk kids entries fun _ => 0).2 (fun _ => [])
    (fun _ => none, fun _ => 0)
    (fun b _ => by simp [flatMap_firstWalk_starts]) (fun b _ => by simp)
  intro b hb i hi
  have h := (hplaced b hb).2 i (by simpa [flatMap_firstWalk_starts] using hi)
  simpa [flatMap_firstWalk_starts, hps b hb, psum_succ] using h

end Run

/-- The key node list holds each key attribute's nodes in turn, each attribute's in the reverse of
the order the walks meet them. -/
theorem keyNodeList_eq (entries : List NodeEntry) :
    keyNodeList kids entries =
      (List.range kids.length).flatMap fun b => (entryMatches kids b entries).reverse.map some := by
  unfold keyNodeList
  dsimp only
  rw [prefixSums_firstWalk_last]
  exact map_range_psum (fun b => List.length_reverse _) kids.length
    (secondWalk_firstWalk_fill kids entries)

end Walks
end CaliperAggregate
