import CaliperAggregate.Flush
import CaliperAggregate.Proofs.KeyLayout

/-!
# Decoding a key

`write_aggregated_snapshot` reads a key back from the buffer `recursive_flush` hands it. It reads
`toc`, then `min(toc/2, SNAP_MAX)` node ids, then, when `toc` is odd, the bitfield and a value for
every configured key attribute whose bit is set.

This reads back what `process_snapshot` wrote when four things hold of the key
(`KeyBuild.Decodable`): the node part holds every node id, the key has no more node ids than
`SNAP_MAX` or no immediate value, no key attribute's value was kept twice, and there are at most
32 key attributes. Then the decoder reads no byte past the key and gives the node ids up to
`SNAP_MAX` and exactly the kept values, each with its attribute's id (`decodeKey_buildKey`).
Each condition is needed (`decodeKey_counterexamples`): a value kept twice is read once; a node
part the guard cut, whose `toc` still counts every node, makes the decoder read past the key;
the bitfield of a key with more than `SNAP_MAX` node ids is read from a node id; and the 33rd key
attribute's bit is the first's.
-/

namespace CaliperAggregate

theorem bufHolds_of_getD {buf : Nat → UInt8} :
    ∀ {p : Nat} {l : List UInt8}, (∀ j < l.length, buf (p + j) = l.getD j 0) → BufHolds buf p l
  | _, [], _ => trivial
  | p, b :: l, h =>
    ⟨by simpa using h 0 (by simp), bufHolds_of_getD fun j hj => by
      simpa [Nat.add_assoc, Nat.add_comm 1 j] using h (j + 1) (by simp; omega)⟩

theorem bufHolds_keyBuffer (key : List UInt8) (beyond : Nat → UInt8) :
    BufHolds (keyBuffer key beyond) 0 key :=
  bufHolds_of_getD fun j hj => by simp [keyBuffer, hj]

theorem readNodes_of_holds {buf : Nat → UInt8} :
    ∀ (ids : List UInt64) {m p : Nat}, m ≤ ids.length → BufHolds buf p (ids.flatMap vlencU64) →
      readNodes buf m p = (ids.take m, p + ((ids.take m).flatMap vlencU64).length)
  | _, 0, p, _, _ => by simp [readNodes]
  | [], _ + 1, _, hm, _ => by simp at hm
  | id :: ids, m + 1, p, hm, h => by
    rw [List.flatMap_cons, bufHolds_append] at h
    simp only [readNodes, vldecU64_of_holds h.1,
      readNodes_of_holds ids (by simpa using hm) h.2, List.take_succ_cons, List.flatMap_cons,
      List.length_append, Nat.add_assoc]

/-- The key values read from `k` on, when the bitfield's bits from `k` on are those of the kept
indices and the buffer holds their values in order. -/
theorem readKeyValues_of_holds {buf : Nat → UInt8} {bf : UInt64} (K : List UInt64) :
    ∀ (k : Nat) (xs : List UInt64) (taken : List (Nat × UInt64)) (p : Nat),
      K.drop k = xs → k + xs.length ≤ 32 → (taken.map Prod.fst).Sorted (· < ·) →
      (∀ kv ∈ taken, k ≤ kv.1 ∧ kv.1 < k + xs.length) →
      (∀ j, k ≤ j → j < 32 → (bf &&& keyBit j ≠ 0 ↔ ∃ kv ∈ taken, kv.1 = j)) →
      BufHolds buf p (taken.flatMap fun kv => vlencU64 kv.2) →
      readKeyValues buf bf k xs p =
        (taken.map fun kv => (K.getD kv.1 0, kv.2),
          p + (taken.flatMap fun kv => vlencU64 kv.2).length)
  | k, [], taken, p, _, _, _, hin, _, _ => by
    have : taken = [] := List.eq_nil_iff_forall_not_mem.mpr fun kv hkv => by
      have := hin kv hkv
      simp at this
      omega
    simp [readKeyValues, this]
  | k, x :: xs, taken, p, hdrop, hlen, hsort, hin, hbits, hbuf => by
    have hx : K.getD k 0 = x := by
      rw [List.getD_eq_getElem?_getD, ← Nat.add_zero k, ← List.getElem?_drop, hdrop]
      simp
    have hdrop' : K.drop (k + 1) = xs := by
      rw [← List.drop_drop, hdrop, List.drop_one, List.tail_cons]
    simp only [List.length_cons] at hlen hin
    by_cases hk : ∃ kv ∈ taken, kv.1 = k
    · obtain ⟨kv, hkv, hkvk⟩ := hk
      obtain ⟨t, rest, rfl⟩ : ∃ t rest, taken = t :: rest :=
        List.exists_cons_of_ne_nil (List.ne_nil_of_mem hkv)
      simp only [List.map_cons, List.sorted_cons, List.mem_map] at hsort
      have ht : t.1 = k := by
        rcases List.mem_cons.mp hkv with rfl | hkv
        · exact hkvk
        · have := hsort.1 kv.1 ⟨kv, hkv, rfl⟩
          have := (hin t (List.mem_cons_self _ _)).1
          omega
      rw [List.flatMap_cons, bufHolds_append] at hbuf
      have hset : bf &&& keyBit k ≠ 0 := (hbits k le_rfl (by omega)).mpr ⟨t, List.mem_cons_self _ _, ht⟩
      rw [readKeyValues, if_pos hset, vldecU64_of_holds hbuf.1,
        readKeyValues_of_holds K (k + 1) xs rest _ hdrop' (by omega) hsort.2
          (fun kv hkv => ⟨by have := hsort.1 kv.1 ⟨kv, hkv, rfl⟩; omega,
            by have := (hin kv (List.mem_cons_of_mem _ hkv)).2; omega⟩)
          (fun j hj hj32 => by
            rw [hbits j (by omega) hj32]
            constructor
            · rintro ⟨kv, hkv, rfl⟩
              rcases List.mem_cons.mp hkv with rfl | hkv
              · omega
              · exact ⟨kv, hkv, rfl⟩
            · rintro ⟨kv, hkv, rfl⟩
              exact ⟨kv, List.mem_cons_of_mem _ hkv, rfl⟩)
          hbuf.2]
      simp only [List.map_cons, ht, hx, List.flatMap_cons, List.length_append, Nat.add_assoc]
    · have hunset : ¬bf &&& keyBit k ≠ 0 := fun h => hk ((hbits k le_rfl (by omega)).mp h)
      rw [readKeyValues, if_neg hunset]
      exact readKeyValues_of_holds K (k + 1) xs taken p hdrop' (by omega) hsort
        (fun kv hkv => ⟨by
          have := (hin kv hkv).1
          rcases Nat.lt_or_eq_of_le this with h | h
          · exact h
          · exact absurd ⟨kv, hkv, h.symm⟩ hk, by have := (hin kv hkv).2; omega⟩)
        (fun j hj hj32 => hbits j (by omega) hj32) hbuf

theorem tocNodeCount_ofNat {n b : Nat} (hb : b ≤ 1) (hn : n * 2 + b < 2 ^ 31) :
    tocNodeCount (UInt64.ofNat (n * 2 + b)) = min n snapMax := by
  have h64 : (UInt64.ofNat (n * 2 + b)).toNat = n * 2 + b := by
    rw [show UInt64.ofNat (n * 2 + b) = (n * 2 + b).toUInt64 from rfl, toNat_toUInt64]
    omega
  simp only [tocNodeCount, h64, Nat.mod_eq_of_lt (show n * 2 + b < 2 ^ 32 by omega), hn, if_true]
  congr 1
  omega

theorem ofNat_mod_two_eq_one {x : Nat} (hx : x < 2 ^ 64) : UInt64.ofNat x % 2 = 1 ↔ x % 2 = 1 := by
  have h : (UInt64.ofNat x % 2).toNat = x % 2 := by
    rw [UInt64.toNat_mod, show UInt64.ofNat x = x.toUInt64 from rfl, toNat_toUInt64,
      Nat.mod_eq_of_lt hx]
    rfl
  constructor
  · intro e
    rw [← h, e]
    rfl
  · intro e
    exact UInt64.toNat.inj (h.trans e)

/-- What `write_aggregated_snapshot` should read back from the key `kb` in decoding `d`: the node
ids up to `SNAP_MAX`, the kept key values with their attributes' ids in order, and nothing past
the key. -/
def KeyBuild.ReadBack (cfg : Config) (kb : KeyBuild) (d : DecodedKey) : Prop :=
  d.nodes = kb.nodeIds.take snapMax ∧
    d.keyValues = kb.imm.taken.map (fun kv => (cfg.keyAttributeIds.getD kv.1 0, kv.2)) ∧
    d.endPos ≤ kb.key.length

instance (cfg : Config) (kb : KeyBuild) (d : DecodedKey) : Decidable (kb.ReadBack cfg d) :=
  inferInstanceAs (Decidable (_ ∧ _ ∧ _))

/-- The keys `write_aggregated_snapshot` reads back: the node part holds every node id, there
are at most `SNAP_MAX` node ids or no kept value, no key attribute's value was kept twice, and
there are at most 32 key attributes. -/
structure KeyBuild.Decodable (cfg : Config) (kb : KeyBuild) : Prop where
  whole : kb.nodeKey = kb.nodeIds.flatMap vlencU64
  nodes_le : kb.nodeIds.length ≤ snapMax ∨ kb.imm.taken = []
  once : (kb.imm.taken.map Prod.fst).Nodup
  few_keys : cfg.keyAttributeIds.length ≤ 32

section Decode

variable {V : Type} (cfg : Config) (c : Host) (snap : SnapshotRecord V)

theorem buildKey_nodeIds_length_le (h : (buildKey cfg c snap).nodeKey =
    (buildKey cfg c snap).nodeIds.flatMap vlencU64) :
    (buildKey cfg c snap).nodeIds.length ≤ 127 := by
  have hlen := buildKey_nodeKey_length_le cfg c snap
  rw [h] at hlen
  have : ∀ ids : List UInt64, ids.length ≤ (ids.flatMap vlencU64).length := by
    intro ids
    induction ids with
    | nil => simp
    | cons id ids ih =>
      have := vlencU64_length_pos id
      simp only [List.flatMap_cons, List.length_append, List.length_cons]
      omega
  exact (this _).trans hlen

theorem flatMap_take_length_le (ids : List UInt64) (m : Nat) :
    ((ids.take m).flatMap vlencU64).length ≤ (ids.flatMap vlencU64).length := by
  conv_rhs => rw [← List.take_append_drop m ids]
  rw [List.flatMap_append, List.length_append]
  exact Nat.le_add_right _ _

/-- The immediate part of a decodable key reads back as the values the encoder kept, each with
its key attribute. -/
theorem readKeyValues_buildKey {buf : Nat → UInt8} {p : Nat}
    (hdec : (buildKey cfg c snap).Decodable cfg)
    (hbytes : BufHolds buf p (buildKey cfg c snap).imm.bytes) :
    readKeyValues buf (buildKey cfg c snap).imm.bitfield 0 cfg.keyAttributeIds p =
      ((buildKey cfg c snap).imm.taken.map fun kv => (cfg.keyAttributeIds.getD kv.1 0, kv.2),
        p + (buildKey cfg c snap).imm.bytes.length) := by
  have hshape := buildKey_imm_shape cfg c snap
  have h32 : ∀ kv ∈ (buildKey cfg c snap).imm.taken, kv.1 % 32 = kv.1 := fun kv hkv =>
    Nat.mod_eq_of_lt ((hshape.lt kv hkv).trans_le hdec.few_keys)
  rw [hshape.bytes_eq] at hbytes ⊢
  refine readKeyValues_of_holds cfg.keyAttributeIds 0 _ _ _ (List.drop_zero _)
    (by simpa using hdec.few_keys) (hshape.sorted.lt_of_le hdec.once)
    (fun kv hkv => ⟨Nat.zero_le _, by simpa using hshape.lt kv hkv⟩) (fun j _ hj => ?_) hbytes
  rw [hshape.bits j hj]
  constructor <;> rintro ⟨kv, hkv, rfl⟩ <;> exact ⟨kv, hkv, by rw [h32 kv hkv]⟩

/-- Decoding a decodable key gives the node ids up to `SNAP_MAX` and the kept key values with
their attributes' ids, and reads nothing past the key: the same from every buffer that holds
the key at its start. -/
theorem decodeKey_buildKey {buf : Nat → UInt8} (hbuf : BufHolds buf 0 (buildKey cfg c snap).key)
    (hdec : (buildKey cfg c snap).Decodable cfg) :
    (buildKey cfg c snap).ReadBack cfg (decodeKey cfg buf) := by
  unfold KeyBuild.ReadBack
  set kb := buildKey cfg c snap with hkb
  have hshape : kb.imm.Shape cfg.keyAttributeIds.length := buildKey_imm_shape cfg c snap
  have hn : kb.nodeIds.length ≤ 127 := buildKey_nodeIds_length_le cfg c snap hdec.whole
  have hkey : kb.key = vlencU64 (UInt64.ofNat (kb.nodeIds.length * 2 +
      if kb.imm.bitfield ≠ 0 then 1 else 0)) ++ kb.nodeKey ++
      if kb.imm.bitfield ≠ 0 then vlencU64 kb.imm.bitfield ++ kb.imm.bytes else [] :=
    buildKey_key cfg c snap
  rw [hkey, bufHolds_append, bufHolds_append] at hbuf
  obtain ⟨⟨htoc, hnodes⟩, hrest⟩ := hbuf
  rw [hdec.whole] at hnodes
  by_cases hbf : kb.imm.bitfield ≠ 0
  · simp only [if_pos hbf] at htoc hnodes hrest hkey
    rw [bufHolds_append] at hrest
    have htaken : kb.imm.taken ≠ [] := fun h => hbf (hshape.bitfield_eq_zero.mpr h)
    have hn80 : kb.nodeIds.length ≤ snapMax := hdec.nodes_le.resolve_right htaken
    unfold decodeKey
    simp only [vldecU64_of_holds htoc]
    rw [tocNodeCount_ofNat le_rfl (by omega), Nat.min_eq_left hn80,
      readNodes_of_holds _ le_rfl hnodes, List.take_length,
      if_pos ((ofNat_mod_two_eq_one (by omega)).mpr (by omega))]
    simp only
    rw [← hdec.whole, vldecU64_of_holds (by simpa using hrest.1),
      readKeyValues_buildKey cfg c snap hdec (by simpa using hrest.2)]
    refine ⟨(List.take_of_length_le hn80).symm, rfl, ?_⟩
    rw [hkey]
    simp [Nat.add_assoc]
  · simp only [if_neg hbf] at htoc hnodes hrest hkey
    have htaken : kb.imm.taken = [] := hshape.bitfield_eq_zero.mp (not_not.mp hbf)
    unfold decodeKey
    simp only [vldecU64_of_holds htoc]
    rw [tocNodeCount_ofNat (Nat.zero_le 1) (by omega),
      readNodes_of_holds _ (Nat.min_le_left _ _) hnodes,
      if_neg (by rw [ofNat_mod_two_eq_one (by omega)]; omega)]
    refine ⟨?_, by simp [htaken], ?_⟩
    · rcases le_total kb.nodeIds.length snapMax with h | h
      · rw [Nat.min_eq_left h, List.take_length, List.take_of_length_le h]
      · rw [Nat.min_eq_right h]
    · rw [hkey, hdec.whole]
      simp only [List.length_append, List.append_nil]
      have := flatMap_take_length_le kb.nodeIds (min kb.nodeIds.length snapMax)
      omega

end Decode

theorem decodeKey_buildKey_one_node :
    BufHolds (keyBuffer (buildKey ⟨0, [7], [], 0⟩ ⟨false, fun _ => some 42⟩
        (⟨[⟨⟨5, 7⟩, []⟩], [⟨7, 3, ()⟩]⟩ : SnapshotRecord Unit)).key fun _ => 0) 0
      (buildKey ⟨0, [7], [], 0⟩ ⟨false, fun _ => some 42⟩
        (⟨[⟨⟨5, 7⟩, []⟩], [⟨7, 3, ()⟩]⟩ : SnapshotRecord Unit)).key ∧
    (buildKey ⟨0, [7], [], 0⟩ ⟨false, fun _ => some 42⟩
        (⟨[⟨⟨5, 7⟩, []⟩], [⟨7, 3, ()⟩]⟩ : SnapshotRecord Unit)).Decodable ⟨0, [7], [], 0⟩ ∧
    (buildKey ⟨0, [7], [], 0⟩ ⟨false, fun _ => some 42⟩
        (⟨[⟨⟨5, 7⟩, []⟩], [⟨7, 3, ()⟩]⟩ : SnapshotRecord Unit)).ReadBack ⟨0, [7], [], 0⟩
      (decodeKey ⟨0, [7], [], 0⟩ (keyBuffer (buildKey ⟨0, [7], [], 0⟩ ⟨false, fun _ => some 42⟩
        (⟨[⟨⟨5, 7⟩, []⟩], [⟨7, 3, ()⟩]⟩ : SnapshotRecord Unit)).key fun _ => 0)) :=
  have hdec : (buildKey ⟨0, [7], [], 0⟩ ⟨false, fun _ => some 42⟩
      (⟨[⟨⟨5, 7⟩, []⟩], [⟨7, 3, ()⟩]⟩ : SnapshotRecord Unit)).Decodable ⟨0, [7], [], 0⟩ :=
    ⟨by decide, by decide, by decide, by decide⟩
  ⟨bufHolds_keyBuffer _ _, hdec, decodeKey_buildKey _ _ _ (bufHolds_keyBuffer _ _) hdec⟩

set_option maxRecDepth 100000 in
/-- Each condition of `KeyBuild.Decodable` is needed: a value kept twice is read once; a node part
cut by the guard makes the decoder read past the key; the bitfield of a key with 81 node ids is
read from the 81st; and the bit of the 33rd key attribute is the first's. -/
theorem decodeKey_counterexamples :
    ¬(buildKey ⟨0, [7], [], 0⟩ ⟨false, fun _ => none⟩
        (⟨[], [⟨7, 1, ()⟩, ⟨7, 2, ()⟩]⟩ : SnapshotRecord Unit)).ReadBack ⟨0, [7], [], 0⟩
      (decodeKey ⟨0, [7], [], 0⟩ (keyBuffer (buildKey ⟨0, [7], [], 0⟩ ⟨false, fun _ => none⟩
        (⟨[], [⟨7, 1, ()⟩, ⟨7, 2, ()⟩]⟩ : SnapshotRecord Unit)).key fun _ => 0)) ∧
    ¬(buildKey ⟨0, [], [], 0⟩ ⟨false, fun _ => none⟩
        (⟨(List.range 13).map fun i => ⟨⟨UInt64.ofNat (2 ^ 63 + i), 1⟩, []⟩, []⟩ :
          SnapshotRecord Unit)).ReadBack ⟨0, [], [], 0⟩
      (decodeKey ⟨0, [], [], 0⟩ (keyBuffer (buildKey ⟨0, [], [], 0⟩ ⟨false, fun _ => none⟩
        (⟨(List.range 13).map fun i => ⟨⟨UInt64.ofNat (2 ^ 63 + i), 1⟩, []⟩, []⟩ :
          SnapshotRecord Unit)).key fun _ => 0)) ∧
    ¬(buildKey ⟨0, [0], [], 0⟩ ⟨false, fun _ => none⟩
        (⟨(List.range 81).map fun i => ⟨⟨UInt64.ofNat (i + 1), 1⟩, []⟩, [⟨0, 5, ()⟩]⟩ :
          SnapshotRecord Unit)).ReadBack ⟨0, [0], [], 0⟩
      (decodeKey ⟨0, [0], [], 0⟩ (keyBuffer (buildKey ⟨0, [0], [], 0⟩ ⟨false, fun _ => none⟩
        (⟨(List.range 81).map fun i => ⟨⟨UInt64.ofNat (i + 1), 1⟩, []⟩, [⟨0, 5, ()⟩]⟩ :
          SnapshotRecord Unit)).key fun _ => 0)) ∧
    ¬(buildKey ⟨0, (List.range 33).map fun i => UInt64.ofNat (i + 1), [], 0⟩ ⟨false, fun _ => none⟩
        (⟨[], [⟨33, 5, ()⟩]⟩ : SnapshotRecord Unit)).ReadBack
          ⟨0, (List.range 33).map fun i => UInt64.ofNat (i + 1), [], 0⟩
      (decodeKey ⟨0, (List.range 33).map fun i => UInt64.ofNat (i + 1), [], 0⟩
        (keyBuffer (buildKey ⟨0, (List.range 33).map fun i => UInt64.ofNat (i + 1), [], 0⟩
          ⟨false, fun _ => none⟩ (⟨[], [⟨33, 5, ()⟩]⟩ : SnapshotRecord Unit)).key fun _ => 0)) := by
  refine ⟨by decide, by decide, by decide, by decide⟩

end CaliperAggregate
