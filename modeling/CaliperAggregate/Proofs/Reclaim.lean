import CaliperAggregate.Proofs.RegistryList

/-!
# No database is lost, and the flusher reclaims the retired ones

A database leaves `s_list` only at the flusher's `unlink` (lines 628-636), and the flusher's next
step deletes it (line 638). So in every state any interleaving reaches, the list holds exactly
the databases created and not deleted, but the one between the two (`Reachable.mem_list_iff`):
no database is dropped from the list while alive, and none on it is freed. It rests on one more
fact that each step keeps: a database the flusher has not flushed is on the list
(`Reachable.shape_unflushed`).

`m_retired` is only ever set, and the flusher reads it after it flushes a database. So a thread's
database retired before `flush_cb` reads `s_list` is deleted by the time `flush_cb` returns,
whatever acquires and retires run meanwhile (`flush_cb_reclaims_retired`): the memory of a
thread that exited is reclaimed by the next flush. `Reclaims` is what the flusher's run keeps
about those databases.
-/

namespace CaliperAggregate

/-- The database the flusher has flushed and may still delete: from its read of `m_retired`
(line 625) to `delete db` (line 638). -/
def FlushPc.deleting : FlushPc → Option Nat
  | .checkRetired d | .readTmp d | .unlink d _ | .delete d _ => some d
  | _ => none

namespace Registry

section Steps

variable {s s' : Registry}

theorem flushStep_retired (s : Registry) : s.flushStep.retired = s.retired := by
  unfold flushStep
  split <;> rfl

/-- The flusher only adds to what it has flushed. -/
theorem Step.flushed_subset (hs : Step s s') : ∀ d ∈ s.flushed, d ∈ s'.flushed := by
  cases hs with
  | acquire | retire => exact fun _ => id
  | flush =>
    unfold flushStep
    split <;> intro d hd <;> simp [unlinkAt, hd]

theorem Step.fresh_le (hs : Step s s') : s.fresh ≤ s'.fresh := by
  cases hs with
  | acquire => exact Nat.le_succ _
  | retire => exact le_rfl
  | flush => exact (flushStep_fresh s).ge

/-- A flag once set stays set: `acquire` clears only the new database's. -/
theorem Step.retired_of_lt (hs : Step s s') {d : Nat} (hd : d < s.fresh)
    (hr : s.retired d = true) : s'.retired d = true := by
  cases hs with
  | acquire => simp only [Registry.acquire, Function.update_noteq hd.ne, hr]
  | retire x =>
    by_cases hx : d = x
    · simp [Registry.retire, hx]
    · simp only [Registry.retire, Function.update_noteq hx, hr]
  | flush => rwa [flushStep_retired]

theorem reaches_iterate_flushStep : ∀ (n : Nat) (s : Registry),
    Relation.ReflTransGen Step s (flushStep^[n] s)
  | 0, _ => .refl
  | n + 1, s => .head (.flush s) (reaches_iterate_flushStep n s.flushStep)

end Steps

section List

variable {s : Registry}

/-- Every reachable state has the shape, and every database the flusher has not flushed is on
the list. -/
theorem Reachable.shape_unflushed (h : Reachable s) :
    ∃ L rest, Shape s L rest ∧ ∀ d < s.fresh, d ∉ s.flushed → d ∈ L := by
  induction h with
  | refl => exact ⟨[], [], shape_init, fun d hd => absurd hd (Nat.not_lt_zero d)⟩
  | @tail s s' _ hs ih =>
    obtain ⟨L, rest, h, hu⟩ := ih
    obtain ⟨L', rest', h', -, hg, hnew⟩ := h.step hs
    refine ⟨L', rest', h', fun d hd hf => ?_⟩
    by_cases hlt : d < s.fresh
    · -- an old database off the list was flushed, and flushed ones stay flushed
      by_contra hn
      exact hf (hs.flushed_subset d (hg d (hu d hlt fun h => hf (hs.flushed_subset d h)) hn))
    · exact hnew d (Nat.not_lt.mp hlt) hd

/-- In every state any interleaving of `acquire`, `retire` and `flush_cb` reaches, `s_list`
heads a doubly-linked list that holds exactly the databases created and not deleted, but the one
the flusher has unlinked and is about to delete; and each deleted database was retired. -/
theorem Reachable.mem_list_iff (h : Reachable s) :
    ∃ L, Linked s L ∧
      (∀ d, d ∈ L ↔ d < s.fresh ∧ d ∉ s.deleted ∧ ∀ tmp, s.fpc ≠ .delete d tmp) ∧
      ∀ d ∈ s.deleted, s.retired d = true := by
  obtain ⟨L, rest, h, hu⟩ := h.shape_unflushed
  refine ⟨L, h.linked, fun d => ⟨fun hd => ?_, fun ⟨hlt, hdel, hpc⟩ => ?_⟩,
    fun d hd => (h.deleted d hd).2.2⟩
  · -- the database being deleted is off the list
    refine ⟨(h.linked.live d hd).1, (h.linked.live d hd).2, fun tmp hpc => ?_⟩
    have hat := h.flushAt
    simp only [FlushAt, hpc] at hat
    exact hat.2.2.2.2 hd
  · by_cases hf : d ∈ s.flushed
    · rcases h.kept d hf with hd | hd | ⟨tmp, e⟩
      exacts [absurd hd hdel, hd, absurd e (hpc tmp)]
    · exact hu d hlt hf

/-- Three databases, the first retired, then the flusher up to its read of `m_retired`. -/
theorem Reachable.mem_list_iff_three :
    Reachable (flushStep^[2] (init.acquire.acquire.acquire.retire 0)) ∧
      ∃ L, Linked (flushStep^[2] (init.acquire.acquire.acquire.retire 0)) L ∧
        (∀ d, d ∈ L ↔ d < (flushStep^[2] (init.acquire.acquire.acquire.retire 0)).fresh ∧
          d ∉ (flushStep^[2] (init.acquire.acquire.acquire.retire 0)).deleted ∧
          ∀ tmp, (flushStep^[2] (init.acquire.acquire.acquire.retire 0)).fpc ≠ .delete d tmp) ∧
        ∀ d ∈ (flushStep^[2] (init.acquire.acquire.acquire.retire 0)).deleted,
          (flushStep^[2] (init.acquire.acquire.acquire.retire 0)).retired d = true :=
  have h : Reachable (flushStep^[2] (init.acquire.acquire.acquire.retire 0)) :=
    (Relation.ReflTransGen.tail (.tail (.tail (.single (.acquire _)) (.acquire _)) (.acquire _))
      (.retire _ 0 (by decide) (by decide))).trans (reaches_iterate_flushStep 2 _)
  ⟨h, h.mem_list_iff⟩

end List

/-- What the flusher's run from `s₀`, where it read `s_list`, keeps about the databases created
and retired before: they stay retired, and each one flushed is deleted or about to be. -/
structure Reclaims (s₀ s : Registry) : Prop where
  fresh_le : s₀.fresh ≤ s.fresh
  retired : ∀ d < s₀.fresh, s₀.retired d = true → s.retired d = true
  flushed : ∀ d ∈ s.flushed, d < s₀.fresh → s₀.retired d = true →
    d ∈ s.deleted ∨ s.fpc.deleting = some d

section Reclaims

variable {s₀ s s' : Registry}

/-- A step of the flusher: it deletes a database only where it stood, and stands at one only
after its read of `m_retired`, which finds an old flag set. -/
theorem Reclaims.flushStep (h : Reclaims s₀ s) : Reclaims s₀ s.flushStep := by
  refine ⟨(flushStep_fresh s).symm ▸ h.fresh_le, fun d hd hr => ?_, fun d hd hlt hr => ?_⟩
  · rw [flushStep_retired]
    exact h.retired d hd hr
  · have hP := h.flushed d
    unfold Registry.flushStep at hd ⊢
    cases hpc : s.fpc with
    | visit cur =>
      cases cur with
      | none =>
        simp only [hpc, FlushPc.deleting] at hd hP ⊢
        exact .inl ((hP hd hlt hr).resolve_right nofun)
      | some x =>
        simp only [hpc, FlushPc.deleting, List.mem_append, List.mem_singleton] at hd hP ⊢
        by_cases hx : d = x
        · exact .inr (by rw [hx])
        · exact .inl ((hP (hd.resolve_right hx) hlt hr).resolve_right nofun)
    | checkRetired x =>
      simp only [hpc, FlushPc.deleting] at hd hP ⊢
      rcases hP hd hlt hr with hdel | hx
      · exact .inl hdel
      · obtain rfl := Option.some.inj hx
        rw [h.retired x hlt hr]
        exact .inr rfl
    | delete x tmp =>
      simp only [hpc, FlushPc.deleting, List.mem_append, List.mem_singleton] at hd hP ⊢
      rcases hP hd hlt hr with hdel | hx
      exacts [.inl (.inl hdel), .inl (.inr (Option.some.inj hx).symm)]
    | idle | advance | done =>
      simp only [hpc, FlushPc.deleting] at hd hP ⊢
      exact .inl ((hP hd hlt hr).resolve_right nofun)
    | readTmp | unlink =>
      simp only [hpc, FlushPc.deleting, unlinkAt] at hd hP ⊢
      exact hP hd hlt hr

theorem Reclaims.step (h : Reclaims s₀ s) (hs : Step s s') : Reclaims s₀ s' := by
  cases hs with
  | flush => exact h.flushStep
  | acquire | retire =>
    exact ⟨h.fresh_le.trans (Step.fresh_le (by constructor <;> assumption)),
      fun d hd hr => Step.retired_of_lt (by constructor <;> assumption)
        (hd.trans_le h.fresh_le) (h.retired d hd hr), h.flushed⟩

theorem Reclaims.run (h : Reclaims s₀ s) (hr : Relation.ReflTransGen Step s s') :
    Reclaims s₀ s' := by
  induction hr with
  | refl => exact h
  | tail _ hs ih => exact ih.step hs

end Reclaims

/-- A database created and retired before `flush_cb` reads `s_list` (line 605) is deleted by the
time `flush_cb` returns, whatever acquires and retires interleave with it. -/
theorem flush_cb_reclaims_retired {s₀ s : Registry} (h₀ : Reachable s₀) (hidle : s₀.fpc = .idle)
    (hr : Relation.ReflTransGen Step s₀.flushStep s) (hdone : s.fpc = .done) {d : Nat}
    (hd : d < s₀.fresh) (hret : s₀.retired d = true) : d ∈ s.deleted := by
  obtain ⟨L₀, _, hs₀, hu⟩ := h₀.shape_unflushed
  have hat : s₀.flushed = [] ∧ s₀.deleted = [] := by simpa only [FlushAt, hidle] using hs₀.flushAt
  -- the run visits all of `L₀`, which holds every database then created
  have hrun : FlushRun s₀.fresh L₀ s₀.flushStep L₀ L₀ :=
    ⟨(hs₀.start hidle).1, by simp [Registry.flushStep, hidle], by rw [(hs₀.start hidle).2]; rfl,
      fun d hd => (hs₀.linked.live d hd).1, fun d h₁ h₂ => by rw [flushStep_fresh] at h₂; omega⟩
  obtain ⟨L, rest, hrs⟩ := hrun.run hr
  have hnil : rest = [] := by simpa only [FlushAt, hdone] using hrs.shape.flushAt
  have hf : d ∈ s.flushed := by
    rw [← List.append_nil s.flushed, ← hnil, hrs.trace]
    exact hu d hd (by rw [hat.1]; exact List.not_mem_nil d)
  -- and what the run keeps about the retired ones
  have hkeep : Reclaims s₀ s :=
    (Reclaims.flushStep ⟨le_rfl, fun _ _ => id, by simp [hat.1]⟩).run hr
  simpa [hdone, FlushPc.deleting] using hkeep.flushed d hf hd hret

/-- Two databases, the first retired: the flusher visits the second, then deletes the first. -/
theorem flush_cb_reclaims_retired_first :
    let s₀ := init.acquire.acquire.retire 0
    Reachable s₀ ∧ s₀.fpc = .idle ∧
      Relation.ReflTransGen Step s₀.flushStep (flushStep^[9] s₀.flushStep) ∧
      (flushStep^[9] s₀.flushStep).fpc = .done ∧ 0 < s₀.fresh ∧ s₀.retired 0 = true ∧
      0 ∈ (flushStep^[9] s₀.flushStep).deleted :=
  have h : Reachable (init.acquire.acquire.retire 0) :=
    .tail (.tail (.single (.acquire _)) (.acquire _)) (.retire _ 0 (by decide) (by decide))
  ⟨h, rfl, reaches_iterate_flushStep 9 _, rfl, by decide, rfl,
    flush_cb_reclaims_retired h rfl (reaches_iterate_flushStep 9 _) rfl (by decide) rfl⟩

end Registry

end CaliperAggregate
