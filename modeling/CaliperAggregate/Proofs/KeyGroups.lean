import CaliperAggregate.Proofs.KeyDecoding

/-!
# Which snapshots share a key

Two snapshots are aggregated together exactly when `process_snapshot` builds them one byte key.
The key is read back with the decoder's own readers (`buildKey_reads`): `toc`, then every node id,
then, when a value was kept, the bitfield and the kept values. So two keys that are equal carry
equal node ids and equal kept values with their key attributes' positions
(`buildKey_key_inj`). This holds when the node part holds every node id, no key attribute's
value was kept twice, and there are at most 32 key attributes. Each of these is needed
(`decodeKey_counterexamples`).
-/

namespace CaliperAggregate

section Groups

variable {V : Type} (cfg : Config)

/-- A built key read back: its `toc`, every node id when the node part holds them all, and, when
a value was kept, the bitfield and the kept values. -/
theorem buildKey_reads {c : Host} {snap : SnapshotRecord V} {buf : Nat → UInt8}
    (hwhole : (buildKey cfg c snap).nodeKey = (buildKey cfg c snap).nodeIds.flatMap vlencU64)
    (hbuf : BufHolds buf 0 (buildKey cfg c snap).key) :
    let kb := buildKey cfg c snap
    let toc := UInt64.ofNat (kb.nodeIds.length * 2 + if kb.imm.bitfield ≠ 0 then 1 else 0)
    let p := (vlencU64 toc).length + (kb.nodeIds.flatMap vlencU64).length
    vldecU64 buf 0 = (toc, (vlencU64 toc).length) ∧
      (readNodes buf kb.nodeIds.length (vlencU64 toc).length).1 = kb.nodeIds ∧
      (kb.imm.bitfield ≠ 0 →
        vldecU64 buf p = (kb.imm.bitfield, p + (vlencU64 kb.imm.bitfield).length) ∧
        (readNodes buf kb.imm.taken.length (p + (vlencU64 kb.imm.bitfield).length)).1 =
          kb.imm.taken.map Prod.snd) := by
  have hshape := buildKey_imm_shape cfg c snap
  rw [buildKey_key, assembleKey, hwhole, bufHolds_append, bufHolds_append] at hbuf
  obtain ⟨⟨htoc, hnodes⟩, hrest⟩ := hbuf
  simp only [Nat.zero_add, List.length_append] at hnodes hrest
  by_cases hbf : (buildKey cfg c snap).imm.bitfield ≠ 0
  · simp only [if_pos hbf] at htoc hnodes hrest ⊢
    have hvals : ((buildKey cfg c snap).imm.taken.flatMap fun kv => vlencU64 kv.2) =
        ((buildKey cfg c snap).imm.taken.map Prod.snd).flatMap vlencU64 := by
      rw [List.flatMap_map]
    rw [bufHolds_append, hshape.bytes_eq, hvals] at hrest
    refine ⟨by rw [vldecU64_of_holds htoc, Nat.zero_add],
      by rw [readNodes_of_holds _ le_rfl hnodes, List.take_length],
      fun _ => ⟨vldecU64_of_holds hrest.1, ?_⟩⟩
    rw [readNodes_of_holds _ (by simp) hrest.2, List.take_of_length_le (by simp)]
  · simp only [if_neg hbf] at htoc hnodes ⊢
    exact ⟨by rw [vldecU64_of_holds htoc, Nat.zero_add],
      by rw [readNodes_of_holds _ le_rfl hnodes, List.take_length], fun h => absurd h hbf⟩

/-- With at most 32 key attributes, the bitfield says which key attributes kept a value. -/
theorem mem_taken_fst_iff {c : Host} {snap : SnapshotRecord V}
    (hk : cfg.keyAttributeIds.length ≤ 32) (j : Nat) :
    j ∈ (buildKey cfg c snap).imm.taken.map Prod.fst ↔
      j < 32 ∧ (buildKey cfg c snap).imm.bitfield &&& keyBit j ≠ 0 := by
  have hshape := buildKey_imm_shape cfg c snap
  have h32 : ∀ kv ∈ (buildKey cfg c snap).imm.taken, kv.1 < 32 := fun kv hkv =>
    (hshape.lt kv hkv).trans_le hk
  simp only [List.mem_map]
  constructor
  · rintro ⟨kv, hkv, rfl⟩
    exact ⟨h32 kv hkv, (hshape.bits _ (h32 kv hkv)).mpr ⟨kv, hkv, Nat.mod_eq_of_lt (h32 kv hkv)⟩⟩
  · rintro ⟨hj, hb⟩
    obtain ⟨kv, hkv, hkj⟩ := (hshape.bits j hj).mp hb
    exact ⟨kv, hkv, by rw [← hkj, Nat.mod_eq_of_lt (h32 kv hkv)]⟩

/-- `toc` holds the number of node ids, at most 127, and whether a value was kept. -/
theorem toc_inj {n n' : Nat} {p q : Prop} [Decidable p] [Decidable q] (hn : n ≤ 127)
    (hn' : n' ≤ 127)
    (h : UInt64.ofNat (n * 2 + if p then 1 else 0) = UInt64.ofNat (n' * 2 + if q then 1 else 0)) :
    n = n' ∧ (p ↔ q) := by
  have h64 : ∀ x < 2 ^ 64, (UInt64.ofNat x).toNat = x := fun x hx => by
    rw [show UInt64.ofNat x = x.toUInt64 from rfl, toNat_toUInt64]
    omega
  have hcount := congrArg UInt64.toNat h
  rw [h64 _ (by split_ifs <;> omega), h64 _ (by split_ifs <;> omega)] at hcount
  split_ifs at hcount with hp hq hq
  · exact ⟨by omega, iff_of_true hp hq⟩
  · omega
  · omega
  · exact ⟨by omega, iff_of_false hp hq⟩

/-- Two snapshots that `process_snapshot` aggregates under one key carry the same key node ids
and the same kept key values, at the same key attribute positions: when each key's node part
holds every node id, no key attribute kept two values, and there are at most 32 key
attributes. -/
theorem buildKey_key_inj {c c' : Host} {snap snap' : SnapshotRecord V}
    (hw : (buildKey cfg c snap).nodeKey = (buildKey cfg c snap).nodeIds.flatMap vlencU64)
    (hw' : (buildKey cfg c' snap').nodeKey = (buildKey cfg c' snap').nodeIds.flatMap vlencU64)
    (ho : ((buildKey cfg c snap).imm.taken.map Prod.fst).Nodup)
    (ho' : ((buildKey cfg c' snap').imm.taken.map Prod.fst).Nodup)
    (hk : cfg.keyAttributeIds.length ≤ 32)
    (h : (buildKey cfg c snap).key = (buildKey cfg c' snap').key) :
    (buildKey cfg c snap).nodeIds = (buildKey cfg c' snap').nodeIds ∧
      (buildKey cfg c snap).imm.taken = (buildKey cfg c' snap').imm.taken := by
  have hb := bufHolds_keyBuffer (buildKey cfg c snap).key fun _ => 0
  have hb' : BufHolds (keyBuffer (buildKey cfg c snap).key fun _ => 0) 0
      (buildKey cfg c' snap').key := by
    rw [← h]
    exact hb
  obtain ⟨htoc, hn, hv⟩ := buildKey_reads cfg hw hb
  obtain ⟨htoc', hn', hv'⟩ := buildKey_reads cfg hw' hb'
  -- `toc` gives the number of node ids and whether a value was kept
  have htocs := (Prod.mk.inj (htoc.symm.trans htoc')).1
  obtain ⟨hn₁, hbf⟩ := toc_inj (buildKey_nodeIds_length_le cfg c snap hw)
    (buildKey_nodeIds_length_le cfg c' snap' hw') htocs
  -- then every node id
  have hids : (buildKey cfg c snap).nodeIds = (buildKey cfg c' snap').nodeIds := by
    rw [← hn, ← hn', htocs, hn₁]
  refine ⟨hids, ?_⟩
  have hshape := buildKey_imm_shape cfg c snap
  have hshape' := buildKey_imm_shape cfg c' snap'
  by_cases hb₀ : (buildKey cfg c snap).imm.bitfield ≠ 0
  · -- the bitfield, which says which key attributes kept a value, then the values
    obtain ⟨hbits, hvals⟩ := hv hb₀
    obtain ⟨hbits', hvals'⟩ := hv' (hbf.mp hb₀)
    rw [htocs, hids] at hbits hvals
    have hbfe := (Prod.mk.inj (hbits.symm.trans hbits')).1
    have hfst : (buildKey cfg c snap).imm.taken.map Prod.fst =
        (buildKey cfg c' snap').imm.taken.map Prod.fst :=
      List.eq_of_perm_of_sorted ((List.perm_ext_iff_of_nodup ho ho').mpr fun j => by
        rw [mem_taken_fst_iff cfg hk, mem_taken_fst_iff cfg hk, hbfe]) hshape.sorted hshape'.sorted
    have hsnd : (buildKey cfg c snap).imm.taken.map Prod.snd =
        (buildKey cfg c' snap').imm.taken.map Prod.snd := by
      rw [← hvals, ← hvals', hbfe, ← List.length_map _ Prod.fst, hfst, List.length_map]
    rw [← List.zip_unzip (buildKey cfg c snap).imm.taken, ← List.zip_unzip (buildKey cfg c' snap').imm.taken,
      List.unzip_fst, List.unzip_snd, List.unzip_fst, List.unzip_snd, hfst, hsnd]
  · rw [hshape.bitfield_eq_zero.mp (not_not.mp hb₀),
      hshape'.bitfield_eq_zero.mp (not_not.mp (mt hbf.mpr hb₀))]

/-- A snapshot, and one that also carries a value of an attribute that is not a key attribute. -/
theorem buildKey_key_inj_extra_value :
    let cfg : Config := ⟨0, [7], [], 0⟩
    let c : Host := ⟨false, fun _ => some 42⟩
    let snap : SnapshotRecord Unit := ⟨[⟨⟨5, 7⟩, []⟩], [⟨7, 3, ()⟩]⟩
    let snap' : SnapshotRecord Unit := ⟨[⟨⟨5, 7⟩, []⟩], [⟨8, 1, ()⟩, ⟨7, 3, ()⟩]⟩
    (buildKey cfg c snap).nodeKey = (buildKey cfg c snap).nodeIds.flatMap vlencU64 ∧
      (buildKey cfg c snap').nodeKey = (buildKey cfg c snap').nodeIds.flatMap vlencU64 ∧
      ((buildKey cfg c snap).imm.taken.map Prod.fst).Nodup ∧
      ((buildKey cfg c snap').imm.taken.map Prod.fst).Nodup ∧
      cfg.keyAttributeIds.length ≤ 32 ∧ (buildKey cfg c snap).key = (buildKey cfg c snap').key ∧
      (buildKey cfg c snap).nodeIds = (buildKey cfg c snap').nodeIds ∧
        (buildKey cfg c snap).imm.taken = (buildKey cfg c snap').imm.taken :=
  ⟨by decide, by decide, by decide, by decide, by decide, by decide,
    buildKey_key_inj _ (by decide) (by decide) (by decide) (by decide) (by decide) (by decide)⟩

end Groups

end CaliperAggregate
