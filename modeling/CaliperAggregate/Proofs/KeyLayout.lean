import CaliperAggregate.KeyEncoding

/-!
# The layout of a key

The node part of a key is the varints of a prefix of the node ids, all of them unless the
`node_key_len+10 < MAX_KEYLEN` guard stopped the loop (`encodeNodeKey_eq`), and it is never longer
than 127 bytes (`encodeNodeKey_length_le`).

The immediate loop only ever looks at the values of the entries that carry the key attribute at
hand, in their order (`immKeyAttr_eq`), and what it keeps has a fixed shape (`ImmKey.Shape`):
the bytes are the kept values' varints, the bitfield has a bit for each kept attribute and is
zero only when nothing was kept, and the attributes are kept in the order of their indices.
-/

namespace CaliperAggregate

theorem uint64_ne_zero_iff (a : UInt64) : a ≠ 0 ↔ a.toNat ≠ 0 := by
  constructor
  · exact fun h h' => h (UInt64.toNat.inj (by simpa using h'))
  · rintro h rfl
    simp at h

theorem toNat_lor (a b : UInt64) : (a ||| b).toNat = a.toNat ||| b.toNat := BitVec.toNat_or _ _

theorem lor_lor_self (x y : UInt64) : x ||| y ||| y = x ||| y :=
  UInt64.toNat.inj (by simp only [toNat_lor, Nat.or_assoc, Nat.or_self])

theorem nat_lor_ne_zero {x y : Nat} : x ||| y ≠ 0 ↔ x ≠ 0 ∨ y ≠ 0 := by
  constructor
  · intro h
    by_contra hc
    simp only [not_or, not_not] at hc
    simp [hc.1, hc.2] at h
  · have hbit : ∀ {z : Nat} (i : Nat), z.testBit i = true → z ≠ 0 := by
      rintro z i h rfl
      simp at h
    rintro (h | h) <;> obtain ⟨i, hi⟩ := Nat.ne_zero_implies_bit_true h <;> exact hbit i (by simp [hi])

theorem keyBit_mod (k : Nat) : keyBit (k % 32) = keyBit k := by
  simp [keyBit, Nat.mod_mod]

theorem keyBit_and_keyBit_lt : ∀ j < 32, ∀ k < 32, (keyBit j &&& keyBit k ≠ 0 ↔ j = k) := by
  decide

theorem keyBit_ne_zero (k : Nat) : keyBit k ≠ 0 := by
  rw [← keyBit_mod]
  have : ∀ r < 32, keyBit r ≠ 0 := by decide
  exact this _ (Nat.mod_lt _ (by decide))

theorem lor_keyBit_ne_zero (x : UInt64) (k : Nat) : x ||| keyBit k ≠ 0 := by
  rw [uint64_ne_zero_iff, toNat_lor, nat_lor_ne_zero]
  exact .inr ((uint64_ne_zero_iff _).mp (keyBit_ne_zero k))

/-- Setting the bit of `j` adds exactly `j`'s bit, read modulo 32 as `1 << j` is. -/
theorem lor_keyBit_and_keyBit (x : UInt64) (j : Nat) {k : Nat} (hk : k < 32) :
    (x ||| keyBit j) &&& keyBit k ≠ 0 ↔ x &&& keyBit k ≠ 0 ∨ j % 32 = k := by
  rw [← keyBit_mod j, ← keyBit_and_keyBit_lt _ (Nat.mod_lt _ (by decide)) _ hk]
  simp only [uint64_ne_zero_iff, UInt64.and_toNat, toNat_lor, Nat.and_distrib_right,
    nat_lor_ne_zero]

/-- Lines 451-455 encode a prefix of the node ids, all of them unless the guard stopped the loop
with no room left for a tenth byte. -/
theorem encodeNodeKey_eq : ∀ (ids : List UInt64) (acc : List UInt8), ∃ m ≤ ids.length,
    encodeNodeKey ids acc = acc ++ (ids.take m).flatMap vlencU64 ∧
      (m < ids.length → maxKeylen ≤ (encodeNodeKey ids acc).length + 10)
  | [], acc => ⟨0, le_refl _, by simp [encodeNodeKey], by simp⟩
  | id :: ids, acc => by
    by_cases h : acc.length + 10 < maxKeylen
    · obtain ⟨m, hm, heq, hcut⟩ := encodeNodeKey_eq ids (acc ++ vlencU64 id)
      refine ⟨m + 1, by simp [hm], ?_, fun hlt => ?_⟩
      · simp [encodeNodeKey, h, heq]
      · simpa [encodeNodeKey, h] using hcut (by simp at hlt; omega)
    · exact ⟨0, by simp, by simp [encodeNodeKey, h], fun _ => by simp [encodeNodeKey, h]; omega⟩

theorem encodeNodeKey_length_le : ∀ (ids : List UInt64) {acc : List UInt8}, acc.length ≤ 127 →
    (encodeNodeKey ids acc).length ≤ 127
  | [], acc, h => by simpa [encodeNodeKey] using h
  | id :: ids, acc, h => by
    simp only [encodeNodeKey]
    split
    · rename_i hr
      have := vlencU64_length_le id
      exact encodeNodeKey_length_le ids (by simp [maxKeylen] at hr ⊢; omega)
    · exact h

/-- The immediate loop for key attribute `k` as it runs over the values of the entries that
carry it. -/
def immKeyVals (nodeKeyLen k : Nat) : List UInt64 → ImmKey → ImmKey
  | [], s => s
  | v :: vs, s =>
    let p := (vlencU64 v).length
    let s' := { s with written := max s.written (s.bytes.length + p) }
    if maxKeylen ≤ nodeKeyLen + s.bytes.length + p + (vlencU64 (s.bitfield ||| keyBit k)).length + 1
    then s'
    else immKeyVals nodeKeyLen k vs
      { s' with bytes := s.bytes ++ vlencU64 v, bitfield := s.bitfield ||| keyBit k,
                taken := s.taken ++ [(k, v)] }

/-- The values of the immediate entries that carry attribute `x`, in their order. -/
def attrValues {V : Type} (x : UInt64) (imms : List (Immediate V)) : List UInt64 :=
  (imms.filter fun e => x = e.attr).map (·.data)

theorem immKeyAttr_eq {V : Type} (nodeKeyLen k : Nat) (x : UInt64) :
    ∀ (imms : List (Immediate V)) (s : ImmKey),
      immKeyAttr nodeKeyLen k x imms s = immKeyVals nodeKeyLen k (attrValues x imms) s
  | [], s => rfl
  | e :: es, s => by
    unfold immKeyAttr attrValues
    by_cases hx : x = e.attr
    · rw [if_pos hx, List.filter_cons_of_pos (by simpa using hx), List.map_cons]
      simp only [immKeyVals]
      split
      · rfl
      · exact immKeyAttr_eq nodeKeyLen k x es _
    · rw [if_neg hx, List.filter_cons_of_neg (by simpa using hx)]
      exact immKeyAttr_eq nodeKeyLen k x es s

/-- What the immediate loop keeps from key attribute `k`: a prefix of its values, their varints
and, if any, its bit. -/
theorem immKeyVals_spec (nodeKeyLen k : Nat) : ∀ (vs : List UInt64) (s : ImmKey), ∃ m ≤ vs.length,
    (immKeyVals nodeKeyLen k vs s).taken = s.taken ++ (vs.take m).map (k, ·) ∧
    (immKeyVals nodeKeyLen k vs s).bytes = s.bytes ++ (vs.take m).flatMap vlencU64 ∧
    (immKeyVals nodeKeyLen k vs s).bitfield = if m = 0 then s.bitfield else s.bitfield ||| keyBit k
  | [], s => ⟨0, le_refl _, by simp [immKeyVals]⟩
  | v :: vs, s => by
    simp only [immKeyVals]
    split
    · exact ⟨0, by simp⟩
    · obtain ⟨m, hm, h1, h2, h3⟩ := immKeyVals_spec nodeKeyLen k vs
        { s with written := max s.written (s.bytes.length + (vlencU64 v).length),
                 bytes := s.bytes ++ vlencU64 v, bitfield := s.bitfield ||| keyBit k,
                 taken := s.taken ++ [(k, v)] }
      refine ⟨m + 1, by simp [hm], by simp [h1], by simp [h2], ?_⟩
      rw [h3, if_neg (Nat.add_one_ne_zero m)]
      split_ifs <;> simp [lor_lor_self]

/-- The shape of what the immediate loop has kept, the indices of its attributes all below
`k`: the bytes are the kept values' varints, the bitfield is zero only when nothing is kept and
has the bit of each kept index (modulo 32), and the indices come in order. -/
structure ImmKey.Shape (k : Nat) (s : ImmKey) : Prop where
  bytes_eq : s.bytes = s.taken.flatMap fun kv => vlencU64 kv.2
  bitfield_eq_zero : s.bitfield = 0 ↔ s.taken = []
  bits : ∀ j < 32, (s.bitfield &&& keyBit j ≠ 0 ↔ ∃ kv ∈ s.taken, kv.1 % 32 = j)
  sorted : (s.taken.map Prod.fst).Sorted (· ≤ ·)
  lt : ∀ kv ∈ s.taken, kv.1 < k

/-- The room check of line 472 holds for what was kept: it fits in the key beside the node part,
the bitfield and the byte of slack. -/
def ImmKey.Fits (nodeKeyLen : Nat) (s : ImmKey) : Prop :=
  s.bitfield ≠ 0 → nodeKeyLen + s.bytes.length + (vlencU64 s.bitfield).length + 1 < maxKeylen

theorem ImmKey.shape_empty : ImmKey.empty.Shape 0 :=
  ⟨rfl, by simp [ImmKey.empty], fun j _ => by simpa [ImmKey.empty] using UInt64.toNat.inj (by simp),
    by simp [ImmKey.empty], by simp [ImmKey.empty]⟩

theorem ImmKey.fits_empty (nodeKeyLen : Nat) : ImmKey.empty.Fits nodeKeyLen := by
  simp [ImmKey.Fits, ImmKey.empty]

theorem immKeyVals_shape (nodeKeyLen k : Nat) (vs : List UInt64) {s : ImmKey} (h : s.Shape k) :
    (immKeyVals nodeKeyLen k vs s).Shape (k + 1) := by
  obtain ⟨m, hml, h1, h2, h3⟩ := immKeyVals_spec nodeKeyLen k vs s
  have hnew : ∀ kv ∈ (vs.take m).map (k, ·), kv.1 = k := by
    intro kv hkv
    obtain ⟨v, -, rfl⟩ := List.mem_map.mp hkv
    rfl
  rcases Nat.eq_zero_or_pos m with rfl | hm
  · simp only [List.take_zero, List.map_nil, List.append_nil, List.flatMap_nil, if_true] at h1 h2 h3
    exact ⟨by rw [h1, h2, h.bytes_eq], by rw [h1, h3, h.bitfield_eq_zero], by rw [h1, h3]; exact h.bits,
      by rw [h1]; exact h.sorted, fun kv hkv => by rw [h1] at hkv; exact Nat.lt_succ_of_lt (h.lt kv hkv)⟩
  · have hne : (vs.take m).map (k, ·) ≠ [] := by
      intro he
      rcases List.take_eq_nil_iff.mp (List.map_eq_nil_iff.mp he) with h0 | h0
      · omega
      · subst h0
        simp at hml
        omega
    rw [if_neg (by omega)] at h3
    refine ⟨by rw [h1, h2, h.bytes_eq, List.flatMap_append, List.flatMap_map], ?_, ?_, ?_, ?_⟩
    · rw [h1, h3]
      exact ⟨fun h0 => absurd h0 (lor_keyBit_ne_zero _ _),
        fun h0 => absurd (List.append_eq_nil.mp h0).2 hne⟩
    · intro j hj
      rw [h3, h1, lor_keyBit_and_keyBit _ _ hj, h.bits j hj]
      obtain ⟨kv, hkv⟩ := List.exists_mem_of_ne_nil _ hne
      constructor
      · rintro (⟨kv', hkv', he⟩ | rfl)
        · exact ⟨kv', List.mem_append_left _ hkv', he⟩
        · exact ⟨kv, List.mem_append_right _ hkv, by rw [hnew kv hkv]⟩
      · rintro ⟨kv', hkv', he⟩
        rcases List.mem_append.mp hkv' with hkv' | hkv'
        · exact .inl ⟨kv', hkv', he⟩
        · exact .inr (by rw [← hnew kv' hkv', he])
    · rw [h1, List.map_append, List.Sorted, List.pairwise_append]
      refine ⟨h.sorted, ?_, fun a ha b hb => ?_⟩
      · rw [List.map_map, show Prod.fst ∘ (k, ·) = fun _ : UInt64 => k from rfl, List.map_const']
        exact List.pairwise_replicate.mpr (.inr le_rfl)
      · obtain ⟨kv, hkv, rfl⟩ := List.mem_map.mp ha
        obtain ⟨kv', hkv', rfl⟩ := List.mem_map.mp hb
        rw [hnew kv' hkv']
        exact (h.lt kv hkv).le
    · intro kv hkv
      rcases List.mem_append.mp (h1 ▸ hkv) with hkv | hkv
      · exact Nat.lt_succ_of_lt (h.lt kv hkv)
      · rw [hnew kv hkv]
        exact Nat.lt_succ_self k

theorem immKeyVals_fits (nodeKeyLen k : Nat) :
    ∀ (vs : List UInt64) {s : ImmKey}, s.Fits nodeKeyLen →
      (immKeyVals nodeKeyLen k vs s).Fits nodeKeyLen
  | [], s, h => h
  | v :: vs, s, h => by
    simp only [immKeyVals]
    split
    · exact h
    · rename_i hroom
      refine immKeyVals_fits nodeKeyLen k vs fun _ => ?_
      simp only [List.length_append]
      omega

theorem immKey_shape {V : Type} (nodeKeyLen : Nat) (imms : List (Immediate V)) :
    ∀ (k : Nat) (xs : List UInt64) {s : ImmKey}, s.Shape k →
      (immKey nodeKeyLen imms k xs s).Shape (k + xs.length)
  | k, [], s, h => h
  | k, x :: xs, s, h => by
    simp only [immKey, immKeyAttr_eq, List.length_cons]
    rw [show k + (xs.length + 1) = k + 1 + xs.length by omega]
    exact immKey_shape nodeKeyLen imms (k + 1) xs (immKeyVals_shape nodeKeyLen k _ h)

theorem immKey_fits {V : Type} (nodeKeyLen : Nat) (imms : List (Immediate V)) :
    ∀ (k : Nat) (xs : List UInt64) {s : ImmKey}, s.Fits nodeKeyLen →
      (immKey nodeKeyLen imms k xs s).Fits nodeKeyLen
  | k, [], s, h => h
  | k, x :: xs, s, h => by
    simp only [immKey, immKeyAttr_eq]
    exact immKey_fits nodeKeyLen imms (k + 1) xs (immKeyVals_fits nodeKeyLen k _ h)

section Build

variable {V : Type} (cfg : Config) (c : Host) (snap : SnapshotRecord V)

theorem buildKey_nodeKey : (buildKey cfg c snap).nodeKey = encodeNodeKey (buildKey cfg c snap).nodeIds [] :=
  rfl

theorem buildKey_imm : (buildKey cfg c snap).imm =
    immKey (buildKey cfg c snap).nodeKey.length snap.immediates 0 cfg.keyAttributeIds ImmKey.empty :=
  rfl

theorem buildKey_key : (buildKey cfg c snap).key =
    assembleKey (buildKey cfg c snap).nodeIds.length (buildKey cfg c snap).nodeKey
      (buildKey cfg c snap).imm :=
  rfl

theorem buildKey_imm_shape : (buildKey cfg c snap).imm.Shape cfg.keyAttributeIds.length := by
  simpa using immKey_shape _ snap.immediates 0 cfg.keyAttributeIds ImmKey.shape_empty

theorem buildKey_imm_fits :
    (buildKey cfg c snap).imm.Fits (buildKey cfg c snap).nodeKey.length :=
  immKey_fits _ snap.immediates 0 cfg.keyAttributeIds (ImmKey.fits_empty _)

theorem buildKey_nodeKey_length_le : (buildKey cfg c snap).nodeKey.length ≤ 127 :=
  encodeNodeKey_length_le _ (by simp)

/-- The key is never empty, and past its `toc` it holds at most 127 bytes: the room checks leave
the `toc` out. -/
theorem buildKey_key_length_le :
    0 < (buildKey cfg c snap).key.length ∧
    (buildKey cfg c snap).key.length ≤
      (vlencU64 (UInt64.ofNat ((buildKey cfg c snap).nodeIds.length * 2 +
        if (buildKey cfg c snap).imm.bitfield ≠ 0 then 1 else 0))).length + 127 := by
  have hnk := buildKey_nodeKey_length_le cfg c snap
  have hfits := buildKey_imm_fits cfg c snap
  rw [buildKey_key, assembleKey]
  refine ⟨?_, ?_⟩
  · simp only [List.length_append]
    have := vlencU64_length_pos (UInt64.ofNat ((buildKey cfg c snap).nodeIds.length * 2 +
      if (buildKey cfg c snap).imm.bitfield ≠ 0 then 1 else 0))
    omega
  split_ifs with hbf
  · have := hfits hbf
    simp only [maxKeylen, List.length_append] at this ⊢
    omega
  · simp only [List.length_append, List.length_nil]
    omega

end Build

set_option maxRecDepth 100000 in
/-- Two keys that outgrow their buffers: 117 one-byte node ids and a ten-byte one fill the node
part to 127 bytes beside a two-byte `toc`, a key of 129 bytes; and thirteen ten-byte values of
one key attribute make line 469 write `imm_key[120, 130)` before the room check drops the last. -/
theorem buildKey_overflow :
    (buildKey ⟨0, [], [], 0⟩ ⟨false, fun _ => none⟩
      (⟨(List.range 117).map (fun i => ⟨⟨UInt64.ofNat (i + 1), 1⟩, []⟩) ++
          [⟨⟨UInt64.ofNat (2 ^ 63), 1⟩, []⟩], []⟩ : SnapshotRecord Unit)).key.length = 129 ∧
    (buildKey ⟨0, [7], [], 0⟩ ⟨false, fun _ => none⟩
      (⟨[], List.replicate 13 ⟨7, UInt64.ofNat (2 ^ 63), ()⟩⟩ :
        SnapshotRecord Unit)).imm.written = 130 := by
  decide

end CaliperAggregate
