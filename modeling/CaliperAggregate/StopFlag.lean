import Mathlib.Logic.Relation

/-!
# The owner and the flusher around `m_stopped`

`process_snapshot_cb` (lines 648-655) on the owner's thread loads `m_stopped` once and, seeing it
clear, runs `process_snapshot`, whose reads and writes of the database follow. For each database,
`flush_cb` (lines 610-623) on the flusher's thread stores `true`, flushes and clears the database,
then stores `false`. A step of `Step` is one load or store of the flag or one access of the
database, by either thread.

The flag is set exactly while the flusher is between its two stores (`stopped_iff_inWindow`), so
an owner that loads it in that window drops its snapshot (`ownerCheck_inWindow`). But the load and
the ingest are separate steps: an owner that loads the flag just before the flusher's first store
goes on to touch the database while the flusher works on it (`owner_accesses_inWindow`).
-/

namespace CaliperAggregate

/-- Where the owner is in `process_snapshot_cb`: about to load `m_stopped`, with `k` accesses of
the database left in `process_snapshot`, or finished. -/
inductive OwnerPc
  | check
  | ingest (k : Nat)
  | done
  deriving DecidableEq, Repr

/-- Where the flusher is in `flush_cb`'s turn on the database: about to store `true`, with `k`
accesses of the database left in `flush` and `clear`, about to store `false`, or finished. -/
inductive FlusherPc
  | stop
  | work (k : Nat)
  | restart
  | done
  deriving DecidableEq, Repr

/-- The two threads and the flag. -/
structure Sched where
  owner : OwnerPc
  flusher : FlusherPc
  stopped : Bool
  deriving DecidableEq, Repr

/-- The flusher is between `m_stopped.store(true)` and `m_stopped.store(false)`. -/
def FlusherPc.InWindow : FlusherPc → Prop
  | .work _ | .restart => True
  | .stop | .done => False

/-- One step of either thread, `n` being the owner's accesses of the database in
`process_snapshot` and `m` the flusher's in `flush` and `clear`. -/
inductive Step (n m : Nat) : Sched → Sched → Prop
  | ownerCheck {s : Sched} : s.owner = .check →
      Step n m s { s with owner := if s.stopped then .done else .ingest n }
  | ownerAccess {s : Sched} {k : Nat} : s.owner = .ingest (k + 1) →
      Step n m s { s with owner := .ingest k }
  | ownerEnd {s : Sched} : s.owner = .ingest 0 → Step n m s { s with owner := .done }
  | flusherStop {s : Sched} : s.flusher = .stop →
      Step n m s { s with flusher := .work m, stopped := true }
  | flusherAccess {s : Sched} {k : Nat} : s.flusher = .work (k + 1) →
      Step n m s { s with flusher := .work k }
  | flusherEnd {s : Sched} : s.flusher = .work 0 → Step n m s { s with flusher := .restart }
  | flusherRestart {s : Sched} : s.flusher = .restart →
      Step n m s { s with flusher := .done, stopped := false }

/-- Both threads before their first step, the flag clear. -/
def Sched.init : Sched := ⟨.check, .stop, false⟩

section Runs

variable {n m : Nat}

theorem step_stopped_iff {s s' : Sched} (h : Step n m s s')
    (hs : s.stopped = true ↔ s.flusher.InWindow) : s'.stopped = true ↔ s'.flusher.InWindow := by
  cases h with
  | ownerCheck _ | ownerAccess _ | ownerEnd _ => exact hs
  | flusherStop _ | flusherRestart _ => simp [FlusherPc.InWindow]
  | flusherAccess h | flusherEnd h => simpa [FlusherPc.InWindow, h] using hs

/-- In every state a run reaches, the flag is set exactly while the flusher is in its window. -/
theorem stopped_iff_inWindow {s : Sched} (h : Relation.ReflTransGen (Step n m) Sched.init s) :
    s.stopped = true ↔ s.flusher.InWindow := by
  induction h with
  | refl => simp [Sched.init, FlusherPc.InWindow]
  | tail _ hstep ih => exact step_stopped_iff hstep ih

/-- An owner that loads the flag inside the flusher's window drops its snapshot. -/
theorem ownerCheck_inWindow {s s' : Sched} (hr : Relation.ReflTransGen (Step n m) Sched.init s)
    (hc : s.owner = .check) (hw : s.flusher.InWindow) :
    Step n m s s' → s'.owner = .done ∨ s'.owner = .check := by
  rintro (h | h | h | h | h | h | h) <;> simp_all [(stopped_iff_inWindow hr).mpr hw]

/-- The owner can touch the database inside the flusher's window: it loads the flag just before the
flusher's `store(true)`, and makes its first access while the flusher flushes. -/
theorem owner_accesses_inWindow (hn : 0 < n) :
    ∃ s s', Relation.ReflTransGen (Step n m) Sched.init s ∧ s.flusher.InWindow ∧
      s.owner = .ingest n ∧ Step n m s s' ∧ s'.owner = .ingest (n - 1) := by
  obtain ⟨k, rfl⟩ : ∃ k, n = k + 1 := ⟨n - 1, by omega⟩
  refine ⟨⟨.ingest (k + 1), .work m, true⟩, ⟨.ingest k, .work m, true⟩, ?_, trivial, rfl,
    .ownerAccess rfl, rfl⟩
  exact .tail (.tail .refl (.ownerCheck rfl)) (.flusherStop rfl)

theorem owner_accesses_inWindow_one_access :
    0 < 1 ∧ ∃ s s', Relation.ReflTransGen (Step 1 1) Sched.init s ∧ s.flusher.InWindow ∧
      s.owner = .ingest 1 ∧ Step 1 1 s s' ∧ s'.owner = .ingest (1 - 1) :=
  ⟨Nat.one_pos, owner_accesses_inWindow Nat.one_pos⟩

end Runs

end CaliperAggregate
