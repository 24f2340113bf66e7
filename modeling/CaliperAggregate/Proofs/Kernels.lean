import CaliperAggregate.Process
import Mathlib.Algebra.Order.Field.Rat

/-!
# What an ingest does to the kernels

`allocKernels` either changes nothing, or advances the kernel counter by `|m_aggr_attributes|`,
fetches the ids past it, and, when every one of them can be fetched, gives them to the node
(`allocKernels_cases`). Fetching only brings in blocks of fresh kernels (`getKernels_spec`). Once
a node's kernels are allocated, `updateKernels` folds each aggregated attribute's values into its
own kernel and leaves every other kernel alone (`updateKernels_kernels`).
-/

namespace CaliperAggregate

/-- The values of attribute `x` among `imms`, in order, as `to_double()` gives them. -/
def attrDoubles {V : Type} (x : UInt64) (imms : List (Immediate V)) : List V :=
  (imms.filter fun i => i.attr = x).map (·.toDouble)

namespace AggregateDB

variable {V : Type} [DoubleOps V] [Zero V]

/-- Fetching kernels only brings in blocks of fresh kernels; when it succeeds, every id it fetched
is allocated. -/
theorem getKernels_spec (firstId : UInt32) (alloc : Bool) :
    ∀ (ks : BlockAlloc (AggregateKernel V)) (is : List Nat),
      ks.Extends AggregateKernel.init (getKernels firstId alloc ks is).2 ∧
      ((getKernels firstId alloc ks is).1 = true → ∀ i ∈ is,
        (getKernels firstId alloc ks is).2.Allocated (firstId + UInt32.ofNat i).toNat)
  | ks, [] => ⟨.refl _ _, fun _ _ hi => nomatch hi⟩
  | ks, i :: is => by
    have hg := ks.extends_get AggregateKernel.init (firstId + UInt32.ofNat i).toNat alloc
    simp only [getKernels]
    split_ifs with hs
    · obtain ⟨hext, hok⟩ := getKernels_spec firstId alloc _ is
      refine ⟨hg.trans hext, fun h j hj => ?_⟩
      rcases List.mem_cons.mp hj with rfl | hj
      · obtain ⟨x, hx⟩ := Option.isSome_iff_exists.mp hs
        exact (hext.old _ (BlockAlloc.get_fst_eq_some hx).2).1
      · exact hok h j hj
    · exact ⟨hg, fun h => by simp at h⟩

/-- Everything `allocKernels` can do: nothing, for a node with kernels or without aggregated
attributes; or advance the kernel counter by `|m_aggr_attributes|`, fetch the ids past it and,
when every one can be fetched, give them to node `e`. -/
theorem allocKernels_cases (db : AggregateDB V) (e : Nat) (alloc : Bool) :
    ((db.node e).kId ≠ noKernels ∨ db.aggrAttributes.length = 0) ∧
        db.allocKernels e alloc = (some e, db) ∨
      (db.node e).kId = noKernels ∧ 0 < db.aggrAttributes.length ∧
        ∃ (ok : Bool) (ks : BlockAlloc (AggregateKernel V)),
          db.kernels.Extends AggregateKernel.init ks ∧
          (ok = true → ∀ i < db.aggrAttributes.length,
            ks.Allocated (UInt32.ofNat (db.numKernelEntries + 1) + UInt32.ofNat i).toNat) ∧
          db.allocKernels e alloc = if ok then
            (some e, { db with
              numKernelEntries := db.numKernelEntries + db.aggrAttributes.length, kernels := ks,
              trie := db.trie.set e
                { db.node e with kId := UInt32.ofNat (db.numKernelEntries + 1) } })
          else (none, { db with
            numKernelEntries := db.numKernelEntries + db.aggrAttributes.length, kernels := ks }) := by
  unfold allocKernels
  split_ifs with h
  · obtain ⟨hext, hok⟩ := getKernels_spec (UInt32.ofNat (db.numKernelEntries + 1)) alloc
      db.kernels (List.range db.aggrAttributes.length)
    refine .inr ⟨h.1, h.2, _, _, hext, fun hk i hi => hok hk i (List.mem_range.mpr hi), ?_⟩
    dsimp only
    split_ifs <;> rfl
  · exact .inl ⟨(not_and_or.mp h).imp id Nat.eq_zero_of_not_pos, rfl⟩

variable [Add V]

/-- Adding values changes only the kernels. -/
theorem addValues_frame (e a : Nat) (x : UInt64) (alloc : Bool) :
    ∀ (db : AggregateDB V) (imms : List (Immediate V)),
      addValues e a x alloc db imms = { db with kernels := (addValues e a x alloc db imms).kernels }
  | _, [] => rfl
  | db, i :: is => by
    unfold addValues
    split_ifs
    · exact addValues_frame e a x alloc _ is
    · exact addValues_frame e a x alloc db is

theorem updateKernels_frame (e : Nat) (alloc : Bool) (imms : List (Immediate V)) :
    ∀ (a : Nat) (xs : List UInt64) (db : AggregateDB V),
      updateKernels e alloc imms a xs db =
        { db with kernels := (updateKernels e alloc imms a xs db).kernels }
  | _, [], _ => rfl
  | a, x :: xs, db => by
    simp only [updateKernels]
    rw [updateKernels_frame e alloc imms (a + 1) xs, addValues_frame e a x alloc db imms]

/-- With node `e`'s kernel `k_id + a` allocated, `addValues` folds the values of `x` into it. -/
theorem addValues_eq (e a : Nat) (x : UInt64) (alloc : Bool) :
    ∀ (db : AggregateDB V) (imms : List (Immediate V)),
      db.kernels.Allocated ((db.node e).kId.toNat + a) →
      ((db.node e).kId.toNat + a) / entriesPerBlock < maxBlocks →
      addValues e a x alloc db imms = { db with kernels := (db.kernels.set ((db.node e).kId.toNat + a)
        ((attrDoubles x imms).foldl AggregateKernel.add (db.kernel ((db.node e).kId.toNat + a)))) }
  | db, [], _, _ => by simp [addValues, attrDoubles, kernel]
  | db, i :: is, hk, hb => by
    have hget : db.kernels.get AggregateKernel.init ((db.node e).kId.toNat + a) alloc =
        (some ((db.node e).kId.toNat + a), db.kernels) := by
      rw [BlockAlloc.get_allocated hk hb]
    unfold addValues
    split_ifs with hx
    · rw [hget]
      dsimp only
      rw [addValues_eq e a x alloc _ is (by exact hk) (by exact hb)]
      simp [attrDoubles, hx, kernel, node]
    · rw [addValues_eq e a x alloc db is hk hb]
      simp [attrDoubles, hx]

/-- With node `e`'s kernels `k_id + a₀`, ..., `k_id + a₀ + |xs| - 1` allocated, `updateKernels`
folds each attribute's values into its own kernel and leaves every other kernel alone. -/
theorem updateKernels_kernels (e : Nat) (alloc : Bool) (imms : List (Immediate V)) :
    ∀ (a₀ : Nat) (xs : List UInt64) (db : AggregateDB V),
      (∀ a < xs.length, db.kernels.Allocated ((db.node e).kId.toNat + a₀ + a) ∧
        ((db.node e).kId.toNat + a₀ + a) / entriesPerBlock < maxBlocks) →
      (updateKernels e alloc imms a₀ xs db).kernels = { db.kernels with elems := (fun j =>
        if (db.node e).kId.toNat + a₀ ≤ j ∧ j < (db.node e).kId.toNat + a₀ + xs.length then
          (attrDoubles (xs.getD (j - ((db.node e).kId.toNat + a₀)) 0) imms).foldl
            AggregateKernel.add (db.kernel j)
        else db.kernel j) }
  | a₀, [], db, _ => by
    have h : ∀ j, ¬((db.node e).kId.toNat + a₀ ≤ j ∧ j < (db.node e).kId.toNat + a₀) :=
      fun _ _ => by omega
    simp only [updateKernels, List.length_nil, Nat.add_zero, h, if_false]
    rfl
  | a₀, x :: xs, db, hk => by
    simp only [updateKernels]
    rw [addValues_eq e a₀ x alloc db imms (hk 0 (by simp)).1 (hk 0 (by simp)).2]
    rw [updateKernels_kernels e alloc imms (a₀ + 1) xs _ fun a ha => by
      simpa [Nat.add_assoc, Nat.add_comm 1 a] using hk (a + 1) (by simp [ha])]
    simp only [BlockAlloc.set, kernel, node, List.length_cons]
    congr 1
    funext j
    by_cases hj : j = (db.trie.elems e).kId.toNat + a₀
    · subst hj
      rw [if_neg (by omega), Function.update_same, if_pos (by omega), Nat.sub_self,
        List.getD_cons_zero]
    · rw [Function.update_noteq hj]
      by_cases hr : (db.trie.elems e).kId.toNat + a₀ + 1 ≤ j ∧
          j < (db.trie.elems e).kId.toNat + (a₀ + 1) + xs.length
      · rw [if_pos (by omega), if_pos (by omega),
          show j - ((db.trie.elems e).kId.toNat + a₀) =
            j - ((db.trie.elems e).kId.toNat + (a₀ + 1)) + 1 by omega, List.getD_cons_succ]
      · rw [if_neg (by omega), if_neg (by omega)]

end AggregateDB

section Statistics

variable {V : Type} [DoubleOps V] [Add V]

theorem foldl_add_sum :
    ∀ (vs : List V) (k : AggregateKernel V),
      (vs.foldl AggregateKernel.add k).sum = vs.foldl (· + ·) k.sum
  | [], _ => rfl
  | v :: vs, k => by rw [List.foldl_cons, foldl_add_sum vs, List.foldl_cons]; rfl

/-- `count` is an `int` the model keeps as 32 bits: it counts modulo `2^32`. -/
theorem foldl_add_count : ∀ (vs : List V) (k : AggregateKernel V),
    (vs.foldl AggregateKernel.add k).count = k.count + BitVec.ofNat 32 vs.length
  | [], k => by simp
  | v :: vs, k => by
    rw [List.foldl_cons, foldl_add_count vs, List.length_cons, Nat.add_comm, BitVec.ofNat_add,
      ← BitVec.add_assoc]
    rfl

/-- `std::min` and `std::max` compare as the order does. -/
def LtIsOrder (V : Type) [LinearOrder V] [DoubleOps V] : Prop :=
  ∀ a b : V, DoubleOps.lt a b = decide (a < b)

/-- `double` as exact rationals, with the limits of `numeric_limits<double>`: `max()` is
`(2^53 - 1) * 2^971` and `min()` is `2^-1022`. -/
instance : DoubleOps ℚ := ⟨fun a b => decide (a < b), (2 ^ 53 - 1) * 2 ^ 971, 1 / 2 ^ 1022⟩

theorem ltIsOrder_rat : LtIsOrder ℚ := fun _ _ => rfl

variable [LinearOrder V]

theorem add_min (hlt : LtIsOrder V) (k : AggregateKernel V) (v : V) :
    (k.add v).min = min k.min v := by
  by_cases h : v < k.min <;> simp [AggregateKernel.add, hlt _ _, h, le_of_lt, not_lt.mp]

theorem add_max (hlt : LtIsOrder V) (k : AggregateKernel V) (v : V) :
    (k.add v).max = max k.max v := by
  by_cases h : k.max < v <;> simp [AggregateKernel.add, hlt _ _, h, le_of_lt, not_lt.mp]

theorem foldl_add_min (hlt : LtIsOrder V) :
    ∀ (vs : List V) (k : AggregateKernel V),
      (vs.foldl AggregateKernel.add k).min = vs.foldl min k.min
  | [], _ => rfl
  | v :: vs, k => by rw [List.foldl_cons, foldl_add_min hlt vs, add_min hlt, List.foldl_cons]

theorem foldl_add_max (hlt : LtIsOrder V) :
    ∀ (vs : List V) (k : AggregateKernel V),
      (vs.foldl AggregateKernel.add k).max = vs.foldl max k.max
  | [], _ => rfl
  | v :: vs, k => by rw [List.foldl_cons, foldl_add_max hlt vs, add_max hlt, List.foldl_cons]

/-- A fresh kernel after `add(v1), ..., add(vn)`: `min` is the least of
`numeric_limits<double>::max()` and the values, `max` the greatest of `numeric_limits<double>::min()`
and the values, `sum` the left fold of `+` from 0 over them, and `count` is `n` modulo `2^32`. -/
theorem foldl_add_init [Zero V] (hlt : LtIsOrder V) (vs : List V) :
    (vs.foldl AggregateKernel.add AggregateKernel.init).min = vs.foldl min DoubleOps.limitsMax ∧
    (vs.foldl AggregateKernel.add AggregateKernel.init).max = vs.foldl max DoubleOps.limitsMin ∧
    (vs.foldl AggregateKernel.add AggregateKernel.init).sum = vs.foldl (· + ·) 0 ∧
    (vs.foldl AggregateKernel.add AggregateKernel.init).count = BitVec.ofNat 32 vs.length :=
  ⟨foldl_add_min hlt vs _, foldl_add_max hlt vs _, foldl_add_sum vs _,
    (foldl_add_count vs _).trans (BitVec.zero_add _)⟩

theorem foldl_add_init_three : LtIsOrder ℚ ∧
    (([10, 30, 20] : List ℚ).foldl AggregateKernel.add AggregateKernel.init).min =
      ([10, 30, 20] : List ℚ).foldl min DoubleOps.limitsMax ∧
    (([10, 30, 20] : List ℚ).foldl AggregateKernel.add AggregateKernel.init).max =
      ([10, 30, 20] : List ℚ).foldl max DoubleOps.limitsMin ∧
    (([10, 30, 20] : List ℚ).foldl AggregateKernel.add AggregateKernel.init).sum =
      ([10, 30, 20] : List ℚ).foldl (· + ·) 0 ∧
    (([10, 30, 20] : List ℚ).foldl AggregateKernel.add AggregateKernel.init).count =
      BitVec.ofNat 32 ([10, 30, 20] : List ℚ).length :=
  ⟨ltIsOrder_rat, foldl_add_init ltIsOrder_rat _⟩

/-- A kernel that has seen only `-1` reports `numeric_limits<double>::min()`, a positive number,
as its maximum; one that has counted `2^31` values holds a negative `int`. -/
theorem foldl_add_counterexamples :
    ([(-1 : ℚ)].foldl AggregateKernel.add AggregateKernel.init).max = 1 / 2 ^ 1022 ∧
    ((List.replicate (2 ^ 31) (0 : ℚ)).foldl AggregateKernel.add AggregateKernel.init).count.toInt =
      -2 ^ 31 := by
  have h : ¬ (1 / 2 ^ 1022 : ℚ) < -1 := not_lt.mpr
    ((neg_nonpos.mpr zero_le_one).trans (div_nonneg zero_le_one (pow_nonneg zero_le_two _)))
  refine ⟨?_, by rw [foldl_add_count, List.length_replicate]; decide⟩
  show (if decide ((1 / 2 ^ 1022 : ℚ) < -1) = true then (-1 : ℚ) else 1 / 2 ^ 1022) = 1 / 2 ^ 1022
  rw [if_neg (by simpa using h)]

end Statistics

end CaliperAggregate
