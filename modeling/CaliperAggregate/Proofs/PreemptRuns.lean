import CaliperAggregate.Preempt
import CaliperAggregate.Proofs.TrieSteps
import Mathlib.Logic.Relation
import Mathlib.Logic.Function.Iterate

/-!
# The machine runs `process_snapshot`

Run without interruption from line 492, the machine ends where the whole call ends
(`reaches_processSnapshot`): its accesses, taken one at a time, are `process_snapshot`. Each part
of the call is a lemma: the walk (`reaches_next`), the kernel ids (`reaches_kId`), the count and the
values (`reaches_count`). From every place and every database the machine returns
(`reaches_done`), so a call that is stopped and resumed always finishes.
-/

namespace CaliperAggregate

namespace AggregateDB

variable {V : Type} [DoubleOps V] [Add V] [Zero V]

/-- The states the call `g` goes through from `s`, running alone. -/
def Reaches (g : Ingest V) : Pc V × AggregateDB V → Pc V × AggregateDB V → Prop :=
  Relation.ReflTransGen fun s t => stepPair g s = t

/-- Where the machine stands once `walk` has given `r`: at the kernel ids of the node it reached,
or dropping the snapshot. -/
def afterWalk (r : Option Nat × AggregateDB V) : Pc V × AggregateDB V :=
  (r.1.elim .dropped .kId, r.2)

/-- Where the machine stands once `find_entry` has given `r`. -/
def afterFind (r : Option Nat × AggregateDB V) : Pc V × AggregateDB V :=
  (r.1.elim .dropped .count, r.2)

variable {g : Ingest V}

theorem Reaches.once {pc : Pc V} {db : AggregateDB V} {s : Pc V × AggregateDB V}
    (h : step g pc db = s) : Reaches g (pc, db) s :=
  .single h

theorem Reaches.head_step {pc pc' : Pc V} {db db' : AggregateDB V} {t : Pc V × AggregateDB V}
    (h : step g pc db = (pc', db')) (r : Reaches g (pc', db') t) : Reaches g (pc, db) t :=
  Relation.ReflTransGen.head h r

theorem reaches_iterate (g : Ingest V) (s : Pc V × AggregateDB V) :
    ∀ n, Reaches g s ((stepPair g)^[n] s)
  | 0 => .refl
  | n + 1 => by
    rw [Function.iterate_succ_apply']
    exact (reaches_iterate g s n).tail rfl

theorem Reaches.exists_iterate {s t : Pc V × AggregateDB V} (h : Reaches g s t) :
    ∃ n, (stepPair g)^[n] s = t := by
  induction h with
  | refl => exact ⟨0, rfl⟩
  | tail _ hst ih =>
    obtain ⟨n, rfl⟩ := ih
    exact ⟨n + 1, by rw [Function.iterate_succ_apply', hst]⟩

theorem iterate_done (o : Option Nat) (db : AggregateDB V) :
    ∀ n, (stepPair g)^[n] (.done o, db) = (.done o, db)
  | 0 => rfl
  | n + 1 => iterate_done o db n

/-- Lines 513-517 for one attribute, one immediate entry a step. -/
theorem reaches_addValues (e a : Nat) (x : UInt64) (xs : List UInt64) :
    ∀ (is : List (Immediate V)) (db : AggregateDB V),
      Reaches g (.values e a (x :: xs) is, db) (.values e (a + 1) xs g.imms,
        addValues e a x g.alloc db is)
  | [], _ => Reaches.once rfl
  | i :: is, db => by
    refine Reaches.head_step rfl ?_
    by_cases hx : i.attr = x
    · simp only [hx, if_true, addValues]
      exact reaches_addValues e a x xs is _
    · simp only [hx, if_false, addValues]
      exact reaches_addValues e a x xs is db

/-- Lines 511-518, from attribute `a` on. -/
theorem reaches_updateKernels (e : Nat) :
    ∀ (a : Nat) (xs : List UInt64) (db : AggregateDB V),
      Reaches g (.values e a xs g.imms, db) (.done (some e), updateKernels e g.alloc g.imms a xs db)
  | _, [], _ => Reaches.once rfl
  | a, x :: xs, db =>
    (reaches_addValues e a x xs g.imms db).trans (reaches_updateKernels e (a + 1) xs _)

/-- Line 509 and the values. -/
theorem reaches_count (e : Nat) (db : AggregateDB V) :
    Reaches g (.count e, db) (.done (some e),
      (db.bumpCount e).updateKernels e g.alloc g.imms 0 db.aggrAttributes) :=
  Reaches.head_step rfl (Reaches.head_step rfl (reaches_updateKernels e 0 _ _))

theorem reaches_dropped (db : AggregateDB V) :
    Reaches g (.dropped, db) (.done none, { db with numDropped := db.numDropped + 1 }) :=
  Reaches.head_step rfl (Reaches.once rfl)

/-- Lines 239-241, one fetch a step. -/
theorem reaches_kernel (e : Nat) (first : UInt32) :
    ∀ (is : List Nat) (db : AggregateDB V),
      Reaches g (.kernel e first is, db)
        ((if (getKernels first g.alloc db.kernels is).1 then .setKId e first else .dropped),
          { db with kernels := (getKernels first g.alloc db.kernels is).2 })
  | [], _ => Reaches.once rfl
  | i :: is, db => by
    refine Reaches.head_step rfl ?_
    by_cases h :
      (db.kernels.get AggregateKernel.init (first + UInt32.ofNat i).toNat g.alloc).1.isSome
    · simp only [getKernels, h, if_true]
      exact reaches_kernel e first is _
    · simp only [getKernels, h, if_false]
      exact .refl

/-- Lines 231-245, with `find_entry`'s return at `e`. -/
theorem reaches_kId (e : Nat) (db : AggregateDB V) :
    Reaches g (.kId e, db) (afterFind (db.allocKernels e g.alloc)) := by
  unfold allocKernels
  by_cases h : (db.node e).kId = noKernels ∧ 0 < db.aggrAttributes.length
  · have h₁ : step g (.kId e) db = (.firstId e, db) := by simp only [step, if_pos h]
    refine Reaches.head_step h₁ (Reaches.head_step rfl (Reaches.head_step rfl
      (Reaches.head_step rfl ?_)))
    rw [if_pos h]
    dsimp only
    refine (reaches_kernel e _ _ _).trans ?_
    split_ifs
    · exact Reaches.once rfl
    · exact .refl
  · rw [if_neg h]
    exact Reaches.once (by simp only [step, if_neg h]; rfl)

omit [DoubleOps V] [Add V] [Zero V] in
theorem walk_none (alloc : Bool) (db : AggregateDB V) (bs : List UInt8) :
    walk alloc db none bs = (none, db) := by
  cases bs <;> rfl

/-- The loop of lines 220-229 from `fetch`, given the loop from the next node on. -/
theorem reaches_fetch {bs : List UInt8}
    (ih : ∀ (db : AggregateDB V) e,
      Reaches g (.next e bs, db) (afterWalk (walk g.alloc db (some e) bs)))
    (id : UInt32) (db : AggregateDB V) :
    Reaches g (.fetch bs id, db) (afterWalk (walk g.alloc
      { db with trie := (db.trie.get TrieNode.init id.toNat g.alloc).2 }
      (db.trie.get TrieNode.init id.toNat g.alloc).1 bs)) := by
  refine Reaches.head_step rfl ?_
  cases (db.trie.get TrieNode.init id.toNat g.alloc).1 with
  | none => rw [walk_none]; exact .refl
  | some e' => exact ih _ e'

/-- The loop of lines 220-229, one access a step, ends where `walk` does. -/
theorem reaches_next : ∀ (bs : List UInt8) (db : AggregateDB V) (e : Nat),
    Reaches g (.next e bs, db) (afterWalk (walk g.alloc db (some e) bs))
  | [], _, _ => Reaches.once rfl
  | b :: bs, db, e => by
    have hf := reaches_fetch (reaches_next bs)
    simp only [walk, walkStep]
    by_cases h0 : (db.node e).next b = 0
    · -- lines 224-225 first: the new edge
      rw [if_pos h0]
      have hid : ((db.addEdge e b).node e).next b = UInt32.ofNat (db.numTrieEntries + 1) := by
        simp [node, next_addEdge]
      rw [hid]
      have h₁ : step g (.next e (b :: bs)) db = (.bump e b bs, db) := by simp only [step, if_pos h0]
      exact Reaches.head_step h₁ (Reaches.head_step rfl (Reaches.head_step rfl
        (Reaches.head_step rfl (hf _ (db.addEdge e b)))))
    · rw [if_neg h0]
      have h₁ : step g (.next e (b :: bs)) db = (.fetch bs ((db.node e).next b), db) := by
        simp only [step, if_neg h0]
      exact Reaches.head_step h₁ (hf _ db)

/-- `find_entry` (lines 218-245). -/
theorem reaches_root (db : AggregateDB V) :
    Reaches g (.root, db) (afterFind (db.findEntry g.key g.alloc)) := by
  refine Reaches.head_step rfl ?_
  unfold findEntry
  dsimp only
  cases (db.trie.get TrieNode.init 0 g.alloc).1 with
  | none => rw [walk_none]; exact .refl
  | some e =>
    refine (reaches_next g.key _ e).trans ?_
    unfold afterWalk
    split
    · next hw => rw [hw]; exact .refl
    · next x hw => rw [hw]; exact reaches_kId x _

/-- Run alone from line 492, the machine ends as `process_snapshot` does. -/
theorem reaches_processSnapshot (cfg : Config) (c : Host) (snap : SnapshotRecord V)
    (db : AggregateDB V) (hne : ¬ IsEmpty snap) :
    ∃ o, Reaches (ingestOf cfg c snap) (.keylen, db) (.done o, db.processSnapshot cfg c snap) := by
  unfold processSnapshot
  rw [if_neg hne]
  dsimp only
  have hr : Reaches (ingestOf cfg c snap) (.keylen, db) (afterFind (findEntry
      { db with maxKeylen := max (buildKey cfg c snap).key.length db.maxKeylen }
      (buildKey cfg c snap).key (!c.isSignal))) :=
    Reaches.head_step rfl (reaches_root _)
  unfold afterFind at hr
  split
  · next hf => rw [hf] at hr; exact ⟨none, hr.trans (reaches_dropped _)⟩
  · next e hf => rw [hf] at hr; exact ⟨some e, hr.trans (reaches_count e _)⟩

/-- A state from which the call, running alone, returns. -/
def Returns (g : Ingest V) (s : Pc V × AggregateDB V) : Prop := ∃ o d, Reaches g s (.done o, d)

theorem Returns.of_reaches {s t : Pc V × AggregateDB V} (ht : Returns g t) (h : Reaches g s t) :
    Returns g s :=
  let ⟨o, d, hd⟩ := ht
  ⟨o, d, h.trans hd⟩

theorem returns_count (e : Nat) (db : AggregateDB V) : Returns g (.count e, db) :=
  ⟨_, _, reaches_count e db⟩

theorem returns_dropped (db : AggregateDB V) : Returns g (.dropped, db) :=
  ⟨_, _, reaches_dropped db⟩

theorem returns_afterFind : ∀ r : Option Nat × AggregateDB V, Returns g (afterFind r)
  | (none, d) => returns_dropped d
  | (some e, d) => returns_count e d

theorem returns_afterWalk : ∀ r : Option Nat × AggregateDB V, Returns g (afterWalk r)
  | (none, d) => returns_dropped d
  | (some e, d) => (returns_afterFind _).of_reaches (reaches_kId e d)

theorem returns_kernel (e : Nat) (first : UInt32) (is : List Nat) (db : AggregateDB V) :
    Returns g (.kernel e first is, db) := by
  refine Returns.of_reaches ?_ (reaches_kernel e first is db)
  split_ifs
  · exact (returns_count e _).of_reaches (Reaches.once rfl)
  · exact returns_dropped _

theorem returns_fetch (bs : List UInt8) (id : UInt32) (db : AggregateDB V) :
    Returns g (.fetch bs id, db) :=
  (returns_afterWalk _).of_reaches (reaches_fetch (reaches_next bs) id db)

/-- From every place and every database, the call returns. -/
theorem returns (g : Ingest V) : ∀ (pc : Pc V) (db : AggregateDB V), Returns g (pc, db)
  | .keylen, _ => (returns_afterFind _).of_reaches (Reaches.head_step rfl (reaches_root _))
  | .root, db => (returns_afterFind _).of_reaches (reaches_root db)
  | .next e bs, db => (returns_afterWalk _).of_reaches (reaches_next bs db e)
  | .bump .., _ => (returns_fetch _ _ _).of_reaches
      (Reaches.head_step rfl (Reaches.head_step rfl (Reaches.once rfl)))
  | .bumpStore .., _ => (returns_fetch _ _ _).of_reaches (Reaches.head_step rfl (Reaches.once rfl))
  | .link .., _ => (returns_fetch _ _ _).of_reaches (Reaches.once rfl)
  | .fetch bs id, db => returns_fetch bs id db
  | .kId e, db => (returns_afterFind _).of_reaches (reaches_kId e db)
  | .firstId _, _ => (returns_kernel _ _ _ _).of_reaches
      (Reaches.head_step rfl (Reaches.head_step rfl (Reaches.once rfl)))
  | .kernelsAdd .., _ =>
    (returns_kernel _ _ _ _).of_reaches (Reaches.head_step rfl (Reaches.once rfl))
  | .kernelsStore .., _ => (returns_kernel _ _ _ _).of_reaches (Reaches.once rfl)
  | .kernel e first is, db => returns_kernel e first is db
  | .setKId e _, _ => (returns_count e _).of_reaches (Reaches.once rfl)
  | .dropped, db => returns_dropped db
  | .droppedStore _, _ => ⟨_, _, Reaches.once rfl⟩
  | .count e, db => returns_count e db
  | .countStore e _, _ => ⟨_, _, Reaches.head_step rfl (reaches_updateKernels e 0 _ _)⟩
  | .values _ _ [] _, _ => ⟨_, _, Reaches.once rfl⟩
  | .values e a (x :: xs) is, db =>
    ⟨_, _, (reaches_addValues e a x xs is db).trans (reaches_updateKernels e _ _ _)⟩
  | .done _, _ => ⟨_, _, .refl⟩

/-- A call stopped after any number of steps and resumed returns after some more. -/
theorem exists_iterate_done (g : Ingest V) (pc : Pc V) (db : AggregateDB V) :
    ∃ n o d, (stepPair g)^[n] (pc, db) = (.done o, d) :=
  let ⟨o, d, h⟩ := returns g pc db
  let ⟨n, hn⟩ := h.exists_iterate
  ⟨n, o, d, hn⟩

omit [DoubleOps V] [Add V] [Zero V] in
theorem walk_numDropped (alloc : Bool) :
    ∀ (key : List UInt8) (db : AggregateDB V) (o : Option Nat),
      (walk alloc db o key).2.numDropped = db.numDropped
  | _, _, none => by rw [walk_none]
  | [], _, some _ => rfl
  | b :: bs, db, some e => by
    simp only [walk]
    rw [walk_numDropped]
    unfold walkStep
    split_ifs <;> rfl

omit [Add V] in
theorem allocKernels_numDropped (db : AggregateDB V) (e : Nat) (alloc : Bool) :
    (db.allocKernels e alloc).2.numDropped = db.numDropped := by
  unfold allocKernels
  dsimp only
  split_ifs <;> rfl

omit [Add V] in
/-- `find_entry` leaves `m_num_dropped` alone. -/
theorem findEntry_numDropped (db : AggregateDB V) (key : List UInt8) (alloc : Bool) :
    (db.findEntry key alloc).2.numDropped = db.numDropped := by
  unfold findEntry
  dsimp only
  split
  · exact walk_numDropped alloc key _ _
  · rw [allocKernels_numDropped]
    exact walk_numDropped alloc key _ _

/-- Run alone from line 492, the machine returns after finitely many accesses, in the state
`process_snapshot` leaves, and it returns without a node exactly when `process_snapshot` counts
the snapshot in `m_num_dropped`. -/
theorem iterate_processSnapshot (cfg : Config) (c : Host) (snap : SnapshotRecord V)
    (db : AggregateDB V) (hne : ¬ IsEmpty snap) :
    ∃ n o, (stepPair (ingestOf cfg c snap))^[n] (.keylen, db) =
        (.done o, db.processSnapshot cfg c snap) ∧
      (o = none ↔ (db.processSnapshot cfg c snap).numDropped = db.numDropped + 1) := by
  unfold processSnapshot
  rw [if_neg hne]
  dsimp only
  have hr : Reaches (ingestOf cfg c snap) (.keylen, db) (afterFind (findEntry
      { db with maxKeylen := max (buildKey cfg c snap).key.length db.maxKeylen }
      (buildKey cfg c snap).key (!c.isSignal))) :=
    Reaches.head_step rfl (reaches_root _)
  have hd := findEntry_numDropped
    { db with maxKeylen := max (buildKey cfg c snap).key.length db.maxKeylen }
    (buildKey cfg c snap).key (!c.isSignal)
  unfold afterFind at hr
  split
  · next hf =>
    rw [hf] at hr
    obtain ⟨n, hn⟩ := Reaches.exists_iterate (hr.trans (reaches_dropped _))
    exact ⟨n, none, hn, iff_of_true rfl (congrArg (· + 1) hd)⟩
  · next e hf =>
    rw [hf] at hr
    obtain ⟨n, hn⟩ := Reaches.exists_iterate (hr.trans (reaches_count e _))
    refine ⟨n, some e, hn, iff_of_false (Option.some_ne_none e) ?_⟩
    rw [updateKernels_frame]
    show ¬ (findEntry _ _ _).2.numDropped = db.numDropped + 1
    rw [hd]
    exact Nat.succ_ne_self _ ∘ Eq.symm

/-- A snapshot of node 5 on a new database: the machine counts it at node 2. -/
theorem iterate_processSnapshot_one_node :
    ¬ IsEmpty (⟨[⟨⟨5, 7⟩, []⟩], []⟩ : SnapshotRecord Float) ∧
      ∃ n o, (stepPair (ingestOf ⟨0, [], [], 0⟩ ⟨false, fun _ => none⟩
          (⟨[⟨⟨5, 7⟩, []⟩], []⟩ : SnapshotRecord Float)))^[n] (.keylen, new [] 0 0) =
          (.done o, (new [] 0 0 : AggregateDB Float).processSnapshot ⟨0, [], [], 0⟩
            ⟨false, fun _ => none⟩ ⟨[⟨⟨5, 7⟩, []⟩], []⟩) ∧
        (o = none ↔ ((new [] 0 0 : AggregateDB Float).processSnapshot ⟨0, [], [], 0⟩
            ⟨false, fun _ => none⟩ ⟨[⟨⟨5, 7⟩, []⟩], []⟩).numDropped =
          (new [] 0 0 : AggregateDB Float).numDropped + 1) :=
  ⟨by decide, iterate_processSnapshot _ _ _ _ (by decide)⟩

end AggregateDB

end CaliperAggregate
