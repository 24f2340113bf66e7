import Mathlib.Logic.Function.Basic

/-!
# The block allocator

`BlockAlloc<T>` holds up to `MAX_BLOCKS` blocks of `ENTRIES_PER_BLOCK` elements and allocates a
block the first time one of its ids is asked for with `alloc` set. An element's handle is its
id: `get` returns `m_blocks[id / 1024] + id % 1024`, a distinct element for each id, so the model
keeps the elements as one map from ids and the allocated blocks as a predicate on block indices.

`get` tests `block > MAX_BLOCKS`, so for the ids of block 2048 it reads `m_blocks[MAX_BLOCKS]`,
one past the array: the word the class lays out next, `m_num_blocks`, taken for a pointer. The
model records such a read in `overrun`, which nothing clears, and goes on as if the pointer had
been null. The code does not: it writes and reads through whatever `m_num_blocks` holds, so what
the model computes after an overrun is not what the code does, and the results about the code's
behaviour are stated for runs without one.

Everything about `get` is in `get_fst` and `get_snd`: what it returns and what it leaves.
-/

namespace CaliperAggregate

/-- `MAX_BLOCKS`, `BlockAlloc`'s default. -/
def maxBlocks : Nat := 2048

/-- `ENTRIES_PER_BLOCK`, `BlockAlloc`'s default. -/
def entriesPerBlock : Nat := 1024

/-- `BlockAlloc<T>`: which entries of `m_blocks` are set, the elements by id, `m_num_blocks`, and
whether a `get` has read `m_blocks[MAX_BLOCKS]`. -/
structure BlockAlloc (α : Type) where
  blocks : Nat → Bool
  elems : Nat → α
  numBlocks : Nat
  overrun : Bool

namespace BlockAlloc

variable {α : Type}

/-- `BlockAlloc()`: `m_blocks` all null; `m_num_blocks` has no initialiser and starts as `n`. -/
def new (init : α) (n : Nat) : BlockAlloc α := ⟨fun _ => false, fun _ => init, n, false⟩

/-- `m_blocks[block] = new T[ENTRIES_PER_BLOCK]; ++m_num_blocks`: the block's elements are
default-constructed. -/
def install (m : BlockAlloc α) (init : α) (block : Nat) : BlockAlloc α :=
  ⟨Function.update m.blocks block true,
    fun j => if j / entriesPerBlock = block then init else m.elems j, m.numBlocks + 1, m.overrun⟩

/-- `BlockAlloc::get(id, alloc)`: the handle (`none` for a null pointer) and the allocator. At
block `MAX_BLOCKS` the read of `m_blocks[MAX_BLOCKS]` is recorded as an overrun. -/
def get (m : BlockAlloc α) (init : α) (id : Nat) (alloc : Bool) : Option Nat × BlockAlloc α :=
  let block := id / entriesPerBlock
  if maxBlocks < block then (none, m)
  else if block = maxBlocks then (none, { m with overrun := true })
  else if m.blocks block then (some id, m)
  else if alloc then (some id, m.install init block)
  else (none, m)

/-- A write through a handle. -/
def set (m : BlockAlloc α) (id : Nat) (x : α) : BlockAlloc α :=
  { m with elems := Function.update m.elems id x }

/-- `BlockAlloc::clear()`: every block released, `m_num_blocks = 0`. -/
def clear (m : BlockAlloc α) : BlockAlloc α := ⟨fun _ => false, m.elems, 0, m.overrun⟩

/-- Whether the block of element `id` is allocated. -/
def Allocated (m : BlockAlloc α) (id : Nat) : Prop := m.blocks (id / entriesPerBlock) = true

instance (m : BlockAlloc α) (id : Nat) : Decidable (m.Allocated id) :=
  inferInstanceAs (Decidable (_ = true))

@[simp] theorem set_blocks (m : BlockAlloc α) (id : Nat) (x : α) : (m.set id x).blocks = m.blocks :=
  rfl

@[simp] theorem set_numBlocks (m : BlockAlloc α) (id : Nat) (x : α) :
    (m.set id x).numBlocks = m.numBlocks := rfl

@[simp] theorem set_elems (m : BlockAlloc α) (id : Nat) (x : α) (j : Nat) :
    (m.set id x).elems j = if j = id then x else m.elems j := Function.update_apply _ _ _ _

@[simp] theorem set_allocated (m : BlockAlloc α) (id : Nat) (x : α) (j : Nat) :
    (m.set id x).Allocated j ↔ m.Allocated j := Iff.rfl

@[simp] theorem install_numBlocks (m : BlockAlloc α) (init : α) (b : Nat) :
    (m.install init b).numBlocks = m.numBlocks + 1 := rfl

@[simp] theorem install_allocated (m : BlockAlloc α) (init : α) (b j : Nat) :
    (m.install init b).Allocated j ↔ j / entriesPerBlock = b ∨ m.Allocated j := by
  by_cases h : j / entriesPerBlock = b <;> simp [Allocated, install, Function.update_apply, h]

@[simp] theorem install_elems (m : BlockAlloc α) (init : α) (b j : Nat) :
    (m.install init b).elems j = if j / entriesPerBlock = b then init else m.elems j := rfl

@[simp] theorem clear_numBlocks (m : BlockAlloc α) : m.clear.numBlocks = 0 := rfl

@[simp] theorem clear_allocated (m : BlockAlloc α) (j : Nat) : ¬ m.clear.Allocated j := by
  simp [Allocated, clear]

@[simp] theorem install_overrun (m : BlockAlloc α) (init : α) (b : Nat) :
    (m.install init b).overrun = m.overrun := rfl

@[simp] theorem clear_overrun (m : BlockAlloc α) : m.clear.overrun = m.overrun := rfl

@[simp] theorem set_overrun (m : BlockAlloc α) (id : Nat) (x : α) :
    (m.set id x).overrun = m.overrun := rfl

@[simp] theorem overrun_allocated (m : BlockAlloc α) (b : Bool) (j : Nat) :
    ({ m with overrun := b } : BlockAlloc α).Allocated j ↔ m.Allocated j := Iff.rfl

/-- What `get` returns: the id, when its block is below `MAX_BLOCKS` and exists or may be
allocated. -/
theorem get_fst (m : BlockAlloc α) (init : α) (id : Nat) (alloc : Bool) :
    (m.get init id alloc).1 =
      if id / entriesPerBlock < maxBlocks ∧ (m.Allocated id ∨ alloc = true) then some id
      else none := by
  unfold get Allocated
  dsimp only
  by_cases h₁ : id / entriesPerBlock < maxBlocks
  · by_cases hb : m.blocks (id / entriesPerBlock) = true <;> cases alloc <;>
      simp [h₁, hb, Nat.ne_of_lt h₁, Nat.not_lt_of_gt h₁]
  · by_cases h₂ : id / entriesPerBlock = maxBlocks
    · simp [h₂]
    · simp [h₁, h₂, show maxBlocks < id / entriesPerBlock by omega]

/-- What `get` leaves: a new block exactly when it allocates one, and an overrun at block
`MAX_BLOCKS`. -/
theorem get_snd (m : BlockAlloc α) (init : α) (id : Nat) (alloc : Bool) :
    (m.get init id alloc).2 =
      if id / entriesPerBlock < maxBlocks ∧ ¬ m.Allocated id ∧ alloc = true then
        m.install init (id / entriesPerBlock)
      else if id / entriesPerBlock = maxBlocks then { m with overrun := true }
      else m := by
  unfold get Allocated
  dsimp only
  by_cases h₁ : id / entriesPerBlock < maxBlocks
  · by_cases hb : m.blocks (id / entriesPerBlock) = true <;> cases alloc <;>
      simp [h₁, hb, Nat.ne_of_lt h₁, Nat.not_lt_of_gt h₁]
  · by_cases h₂ : id / entriesPerBlock = maxBlocks
    · simp [h₂]
    · simp [h₁, h₂, show maxBlocks < id / entriesPerBlock by omega]

/-- An id of an allocated block below `MAX_BLOCKS` is returned, and nothing changes. -/
theorem get_allocated {m : BlockAlloc α} {init : α} {id : Nat} {alloc : Bool}
    (h : m.Allocated id) (hb : id / entriesPerBlock < maxBlocks) :
    m.get init id alloc = (some id, m) := by
  rw [Prod.ext_iff, get_fst, get_snd, if_pos ⟨hb, .inl h⟩, if_neg fun h' => h'.2.1 h,
    if_neg (Nat.ne_of_lt hb)]
  exact ⟨rfl, rfl⟩

/-- Without allocation, an id of a missing block other than `MAX_BLOCKS` is null, and nothing
changes. -/
theorem get_false_missing {m : BlockAlloc α} {init : α} {id : Nat} (h : ¬ m.Allocated id)
    (hb : id / entriesPerBlock ≠ maxBlocks) : m.get init id false = (none, m) := by
  rw [Prod.ext_iff, get_fst, get_snd, if_neg fun h' => h'.2.elim h (by simp),
    if_neg fun h' => Bool.false_ne_true h'.2.2, if_neg hb]
  exact ⟨rfl, rfl⟩

@[simp] theorem get_false_blocks (m : BlockAlloc α) (init : α) (id : Nat) :
    (m.get init id false).2.blocks = m.blocks := by
  rw [get_snd]
  split_ifs <;> simp_all

@[simp] theorem get_false_elems (m : BlockAlloc α) (init : α) (id : Nat) :
    (m.get init id false).2.elems = m.elems := by
  rw [get_snd]
  split_ifs <;> simp_all

@[simp] theorem get_false_numBlocks (m : BlockAlloc α) (init : α) (id : Nat) :
    (m.get init id false).2.numBlocks = m.numBlocks := by
  rw [get_snd]
  split_ifs <;> simp_all

/-- Only the read of `m_blocks[MAX_BLOCKS]` sets `overrun`. -/
theorem get_overrun (m : BlockAlloc α) (init : α) (id : Nat) (alloc : Bool) :
    (m.get init id alloc).2.overrun = (m.overrun || decide (id / entriesPerBlock = maxBlocks)) := by
  rw [get_snd]
  by_cases h : id / entriesPerBlock = maxBlocks
  · simp [h]
  · split_ifs <;> simp [h]

theorem get_fst_eq_some {m : BlockAlloc α} {init : α} {id e : Nat} {alloc : Bool}
    (h : (m.get init id alloc).1 = some e) : e = id ∧ (m.get init id alloc).2.Allocated id := by
  rw [get_fst] at h
  split_ifs at h with hc
  cases h
  refine ⟨rfl, ?_⟩
  rw [get_snd]
  by_cases ha : m.Allocated id
  · simp [ha, Nat.ne_of_lt hc.1]
  · simp [ha, hc.1, hc.2.resolve_left ha]

/-- `get` never releases a block. -/
theorem allocated_get_snd {m : BlockAlloc α} {init : α} {id j : Nat} {alloc : Bool}
    (h : m.Allocated j) : (m.get init id alloc).2.Allocated j := by
  rw [get_snd]
  split_ifs <;> simp [h]

/-- An element allocated after `get` was allocated before, or sits in the block `get` brought in,
with its initial value. -/
theorem allocated_of_get_snd {m : BlockAlloc α} {init : α} {id j : Nat} {alloc : Bool}
    (h : (m.get init id alloc).2.Allocated j) :
    m.Allocated j ∨ (m.get init id alloc).2.elems j = init ∧ j / entriesPerBlock < maxBlocks := by
  rw [get_snd] at h ⊢
  split_ifs at h ⊢ with hc
  · rcases (install_allocated _ _ _ _).mp h with hj | hj
    · exact .inr ⟨by simp [hj], hj ▸ hc.1⟩
    · exact .inl hj
  · exact .inl h
  · exact .inl h

/-- An element of an allocated block is the same after `get`. -/
theorem elems_get_snd {m : BlockAlloc α} {init : α} {id j : Nat} {alloc : Bool}
    (h : m.Allocated j) : (m.get init id alloc).2.elems j = m.elems j := by
  rw [get_snd]
  split_ifs with hc
  · have : j / entriesPerBlock ≠ id / entriesPerBlock := fun e => hc.2.1 (by rwa [Allocated, ← e])
    simp [this]
  · rfl
  · rfl

@[simp] theorem set_set (m : BlockAlloc α) (id : Nat) (x y : α) : (m.set id x).set id y = m.set id y := by
  simp [set]

@[simp] theorem set_elems_self (m : BlockAlloc α) (id : Nat) : m.set id (m.elems id) = m := by
  simp [set]

/-- `m'` keeps every allocated element of `m` as it was, and what it allocated since holds `init`,
below `MAX_BLOCKS`. -/
structure Extends (init : α) (m m' : BlockAlloc α) : Prop where
  old : ∀ j, m.Allocated j → m'.Allocated j ∧ m'.elems j = m.elems j
  new : ∀ j, m'.Allocated j → ¬ m.Allocated j → m'.elems j = init ∧ j / entriesPerBlock < maxBlocks

theorem Extends.refl (init : α) (m : BlockAlloc α) : m.Extends init m :=
  ⟨fun _ h => ⟨h, rfl⟩, fun _ h h' => absurd h h'⟩

theorem Extends.trans {init : α} {m₁ m₂ m₃ : BlockAlloc α} (h₁ : m₁.Extends init m₂)
    (h₂ : m₂.Extends init m₃) : m₁.Extends init m₃ where
  old j hj := ⟨(h₂.old j (h₁.old j hj).1).1, (h₂.old j (h₁.old j hj).1).2.trans (h₁.old j hj).2⟩
  new j hj hn := by
    by_cases hj₂ : m₂.Allocated j
    · rw [(h₂.old j hj₂).2]
      exact h₁.new j hj₂ hn
    · exact h₂.new j hj hj₂

theorem extends_get (m : BlockAlloc α) (init : α) (id : Nat) (alloc : Bool) :
    m.Extends init (m.get init id alloc).2 :=
  ⟨fun _ hj => ⟨allocated_get_snd hj, elems_get_snd hj⟩, fun _ hj hn =>
    (allocated_of_get_snd hj).resolve_left hn⟩

end BlockAlloc

end CaliperAggregate
