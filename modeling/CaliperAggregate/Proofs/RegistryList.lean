import CaliperAggregate.Registry
import Mathlib.Data.List.Chain
import Mathlib.Data.List.Infix
import Mathlib.Data.List.Nodup
import Mathlib.Logic.Function.Iterate

/-!
# The list stays a list, and the flusher visits it once

`Linked s L` says that `s_list` heads a doubly-linked list `L`. A splice at the head keeps it one,
with the new database first (`Linked.acquire`); `unlink` takes a database out of the middle, the
head or the end (`Linked.unlink`). `FlushAt` says where the flusher stands in the list: the
databases it read that it has still to visit are a suffix of the list, since a splice only touches
the head and only the flusher takes databases out.

`Shape.step` is what one step of any interleaving keeps; `Shape.run` lifts it to every run. A run
of the flusher from its read of `s_list` flushes each database of the list it read once, in list
order, deletes only databases it flushed, unlinked and found retired, and leaves every database
inserted meanwhile on the list (`flush_cb_visits_list`). Its read of a database's `m_retired`
decides that database's fate: it goes on to unlink and delete it when the flag was set
(`Deleting`), and never comes back to it when it was not (`Spared`), so once it returns it has
deleted exactly the databases it found retired (`FlushRun.deleted_iff_found`).
-/

namespace CaliperAggregate

/-- Steps the flusher has left at a database, past the read of `s_list`. -/
def FlushPc.left : FlushPc → Nat
  | .idle | .done => 0
  | .visit _ => 1
  | .delete .. => 2
  | .advance _ => 2
  | .unlink .. => 3
  | .readTmp _ => 4
  | .checkRetired _ => 5

theorem FlushPc.left_le (p : FlushPc) : p.left ≤ 5 := by
  cases p <;> simp [FlushPc.left]

/-- The database the flusher stands at while it reads `m_retired` and, if it found the flag set,
until it deletes it. -/
def FlushPc.at : FlushPc → Option Nat
  | .checkRetired d | .readTmp d | .unlink d _ | .delete d _ => some d
  | _ => none

namespace Registry

/-- `L` is the list `s_list` heads, first to last: each database's `m_next` is the one after it,
whose `m_prev` is it; the head's `m_prev` and the last one's `m_next` are null; no database is
on it twice, and each was created and not deleted. -/
structure Linked (s : Registry) (L : List Nat) : Prop where
  nodup : L.Nodup
  head_eq : s.head = L.head?
  prev_head : ∀ h ∈ L.head?, s.prev h = none
  next_last : ∀ t ∈ L.getLast?, s.next t = none
  chain : L.Chain' fun a b => s.next a = some b ∧ s.prev b = some a
  live : ∀ d ∈ L, d < s.fresh ∧ d ∉ s.deleted

section Pointers

variable (s : Registry)

theorem acquire_next (a : Nat) :
    s.acquire.next a = if a = s.fresh then s.head else s.next a := by
  by_cases ha : a = s.fresh <;> simp [acquire, ha]

theorem acquire_prev (b : Nat) :
    s.acquire.prev b =
      if b = s.fresh then none else if s.head = some b then some s.fresh else s.prev b := by
  by_cases hb : b = s.fresh
  · simp [acquire, hb]
  · cases hh : s.head with
    | none => simp [acquire, hb, hh]
    | some h =>
      by_cases hbh : b = h
      · subst hbh
        simp [acquire, hb, hh]
      · simp [acquire, hb, hh, hbh, Ne.symm hbh]

theorem unlinkAt_next (d a : Nat) :
    (s.unlinkAt d).next a = if s.prev d = some a then s.next d else s.next a := by
  cases hp : s.prev d with
  | none => simp [unlinkAt, hp]
  | some p => by_cases ha : a = p <;> simp [unlinkAt, hp, ha, eq_comm]

theorem unlinkAt_prev (d b : Nat) :
    (s.unlinkAt d).prev b = if s.next d = some b then s.prev d else s.prev b := by
  cases hn : s.next d with
  | none => simp [unlinkAt, hn]
  | some n => by_cases hb : b = n <;> simp [unlinkAt, hn, hb, eq_comm]

end Pointers

section Linked

variable {s : Registry} {L : List Nat}

/-- The database after `d` on the list. -/
theorem Linked.next_eq (h : Linked s L) {d : Nat} {rest : List Nat} (hs : d :: rest <:+ L) :
    s.next d = rest.head? := by
  obtain ⟨pre, rfl⟩ := hs
  cases rest with
  | nil => exact h.next_last d (by simp)
  | cons y rest => exact (List.chain'_cons.mp h.chain.right_of_append).1.1

/-- The database before `d` on the list. -/
theorem Linked.prev_eq (h : Linked s L) {d : Nat} {pre rest : List Nat}
    (hL : L = pre ++ d :: rest) :
    s.prev d = pre.getLast? := by
  subst hL
  rcases List.eq_nil_or_concat pre with rfl | ⟨pre, x, rfl⟩
  · exact h.prev_head d rfl
  · rw [List.concat_eq_append] at h ⊢
    rw [show (pre ++ [x]).getLast? = some x by simp]
    exact ((List.chain'_append.mp h.chain).2.2 x (by simp) d rfl).2

/-- A splice at the head (lines 577-581) puts the new database first. -/
theorem Linked.acquire (h : Linked s L) (hf : s.fresh ∉ s.deleted) :
    Linked s.acquire (s.fresh :: L) := by
  have hfL : s.fresh ∉ L := fun hm => Nat.lt_irrefl _ (h.live _ hm).1
  have hne : ∀ a ∈ L, a ≠ s.fresh := fun a ha he => hfL (he ▸ ha)
  refine ⟨List.nodup_cons.mpr ⟨hfL, h.nodup⟩, rfl, ?_, ?_, ?_, ?_⟩
  · intro x hx
    cases hx
    simp [acquire_prev]
  · intro t ht
    cases L with
    | nil =>
      obtain rfl : s.fresh = t := by simpa using ht
      rw [acquire_next, if_pos rfl, h.head_eq]
      rfl
    | cons y L =>
      have ht' : t ∈ (y :: L).getLast? := by simpa using ht
      rw [acquire_next, if_neg (hne t (List.mem_of_mem_getLast? ht'))]
      exact h.next_last t ht'
  · refine List.Chain'.cons' ?_ fun y hy => ?_
    · refine (List.Chain'.iff_mem.mp h.chain).imp fun a b ⟨ha, hb, hn, hp⟩ => ⟨?_, ?_⟩
      · rwa [acquire_next, if_neg (hne a ha)]
      · rw [acquire_prev, if_neg (hne b hb), if_neg]
        · exact hp
        · intro hh
          rw [h.head_eq] at hh
          rw [h.prev_head b hh] at hp
          cases hp
    · rw [acquire_next, if_pos rfl, h.head_eq, acquire_prev,
        if_neg (hne y (List.mem_of_mem_head? hy)),
        if_pos (by rw [h.head_eq]; exact hy)]
      exact ⟨hy, rfl⟩
  · intro d hd
    rcases List.mem_cons.mp hd with rfl | hd
    · exact ⟨Nat.lt_succ_self _, hf⟩
    · exact ⟨Nat.lt_succ_of_lt (h.live d hd).1, (h.live d hd).2⟩

/-- `db->unlink()` (lines 210-215), with `s_list = tmp` when `d` heads the list (lines 634-635),
takes `d` out of the list wherever it stands. -/
theorem Linked.unlink (h : Linked s L) {pre rest : List Nat} {d : Nat} (hL : L = pre ++ d :: rest) :
    Linked { s.unlinkAt d with head := if s.head = some d then rest.head? else s.head }
      (pre ++ rest) := by
  have hnd := h.nodup
  rw [hL] at hnd
  obtain ⟨-, hdr, hdis⟩ := List.nodup_append.mp hnd
  have hdpre : d ∉ pre := fun hm => hdis hm (List.mem_cons_self d rest)
  have hdrest : d ∉ rest := (List.nodup_cons.mp hdr).1
  have hsep : ∀ a ∈ pre, a ∉ rest := fun a ha hr => hdis ha (List.mem_cons_of_mem d hr)
  have hprev := h.prev_eq hL
  have hnext := h.next_eq ⟨pre, hL.symm⟩
  have hch := h.chain
  rw [hL] at hch
  obtain ⟨hcp, hcd, hj⟩ := List.chain'_append.mp hch
  have hcr := (List.chain'_cons'.mp hcd).2
  have hmem : ∀ x ∈ pre ++ rest, x ∈ L := fun x hx => by
    rw [hL]
    rcases List.mem_append.mp hx with hx | hx
    exacts [List.mem_append_left _ hx, List.mem_append_right _ (List.mem_cons_of_mem d hx)]
  refine ⟨hnd.sublist ((List.sublist_cons_self d rest).append_left pre), ?_, ?_, ?_, ?_,
    fun x hx => h.live x (hmem x hx)⟩
  · -- the head: `tmp` if `d` was first
    cases pre with
    | nil => simp [h.head_eq, hL]
    | cons a pre =>
      have had : a ≠ d := fun e => hdpre (e ▸ List.mem_cons_self a pre)
      simp [h.head_eq, hL, had]
  · intro x hx
    show (s.unlinkAt d).prev x = none
    rw [unlinkAt_prev, hnext, hprev]
    cases pre with
    | nil => simp_all
    | cons a pre =>
      obtain rfl : a = x := by simpa using hx
      rw [if_neg (show ¬ rest.head? = some a from
        fun e => hsep a (List.mem_cons_self a pre) (List.mem_of_mem_head? e))]
      exact h.prev_head a (by simp [hL])
  · intro t ht
    show (s.unlinkAt d).next t = none
    rw [unlinkAt_next, hprev, hnext]
    rw [List.getLast?_append] at ht
    cases hr : rest.getLast? with
    | none =>
      rw [hr, Option.none_or] at ht
      rw [if_pos (show pre.getLast? = some t from ht), List.getLast?_eq_none_iff.mp hr]
      rfl
    | some t' =>
      rw [hr, Option.or_some] at ht
      have htr : t ∈ rest := List.mem_of_mem_getLast? (hr.trans ht)
      rw [if_neg (show ¬ pre.getLast? = some t from
        fun e => hsep t (List.mem_of_mem_getLast? e) htr)]
      exact h.next_last t (by
        rw [hL, List.getLast?_append, show d :: rest = [d] ++ rest from rfl, List.getLast?_append,
          hr.trans ht]
        rfl)
  · -- the links inside each part are as they were, and the parts now meet
    refine List.Chain'.append ?_ ?_ fun x hx y hy => ⟨?_, ?_⟩
    · refine (List.Chain'.iff_mem.mp hcp).imp fun a b ⟨ha, hb, hn, hp⟩ => ⟨?_, ?_⟩
      · show (s.unlinkAt d).next a = some b
        rw [unlinkAt_next, hprev, if_neg]
        · exact hn
        · intro e
          have := (hj a e d rfl).1
          rw [hn] at this
          cases this
          exact hdpre hb
      · show (s.unlinkAt d).prev b = some a
        rw [unlinkAt_prev, hnext, if_neg (show ¬ rest.head? = some b from
          fun e => hsep b hb (List.mem_of_mem_head? e))]
        exact hp
    · refine (List.Chain'.iff_mem.mp hcr).imp fun a b ⟨ha, hb, hn, hp⟩ => ⟨?_, ?_⟩
      · show (s.unlinkAt d).next a = some b
        rw [unlinkAt_next, hprev, if_neg (show ¬ pre.getLast? = some a from
          fun e => hsep a (List.mem_of_mem_getLast? e) ha)]
        exact hn
      · show (s.unlinkAt d).prev b = some a
        rw [unlinkAt_prev, hnext, if_neg]
        · exact hp
        · intro e
          have := ((List.chain'_cons'.mp hcd).1 b e).2
          rw [hp] at this
          cases this
          exact hdrest ha
    · show (s.unlinkAt d).next x = some y
      rw [unlinkAt_next, hprev, if_pos (show pre.getLast? = some x from hx), hnext]
      exact hy
    · show (s.unlinkAt d).prev y = some x
      rw [unlinkAt_prev, hnext, if_pos (show rest.head? = some y from hy), hprev]
      exact hx

/-- The list depends only on `s_list`, the links, and which databases exist. -/
theorem Linked.congr (h : Linked s L) {s' : Registry} (hh : s'.head = s.head)
    (hn : s'.next = s.next) (hp : s'.prev = s.prev)
    (hlive : ∀ d ∈ L, d < s'.fresh ∧ d ∉ s'.deleted) :
    Linked s' L :=
  ⟨h.nodup, hh ▸ h.head_eq, hp ▸ h.prev_head, hn ▸ h.next_last, hn ▸ hp ▸ h.chain, hlive⟩

/-- On the list, `d->m_next->m_prev == d`. -/
theorem Linked.prev_of_next (h : Linked s L) {d e : Nat} (hd : d ∈ L) (he : s.next d = some e) :
    s.prev e = some d := by
  obtain ⟨pre, rest, rfl⟩ := List.append_of_mem hd
  rw [h.next_eq (List.suffix_append pre _)] at he
  obtain ⟨r, rfl⟩ : ∃ r, rest = e :: r := by cases rest <;> simp_all
  rw [h.prev_eq (show pre ++ d :: e :: r = (pre ++ [d]) ++ e :: r by simp)]
  simp

/-- On the list, `d->m_prev->m_next == d`. -/
theorem Linked.next_of_prev (h : Linked s L) {d p : Nat} (hd : d ∈ L) (hp : s.prev d = some p) :
    s.next p = some d := by
  obtain ⟨pre, rest, hL⟩ := List.append_of_mem hd
  rw [h.prev_eq hL] at hp
  obtain ⟨pre, rfl⟩ : ∃ pre', pre = pre' ++ [p] := by
    rcases List.eq_nil_or_concat pre with rfl | ⟨pre', x, rfl⟩ <;> simp_all
  exact h.next_eq ⟨pre, by rw [hL, List.append_assoc]; rfl⟩

end Linked

/-- Where the flusher stands in the list `L`: `rest` is what it has still to visit of the list it
read, a suffix of `L`; the database it is at was flushed and, past the check, found retired; one
it has unlinked is off the list. Before it starts it has flushed and deleted nothing. -/
def FlushAt (s : Registry) (L rest : List Nat) : Prop :=
  match s.fpc with
  | .idle => s.flushed = [] ∧ s.deleted = []
  | .visit cur => rest <:+ L ∧ cur = rest.head?
  | .checkRetired d | .advance d => d :: rest <:+ L ∧ d ∈ s.flushed
  | .readTmp d => d :: rest <:+ L ∧ d ∈ s.flushed ∧ s.retired d = true
  | .unlink d tmp => d :: rest <:+ L ∧ d ∈ s.flushed ∧ s.retired d = true ∧ tmp = rest.head?
  | .delete d tmp =>
    rest <:+ L ∧ d ∈ s.flushed ∧ s.retired d = true ∧ tmp = rest.head? ∧ d ∉ L
  | .done => rest = []

/-- A step that leaves the flusher and its records alone, keeps every flag it found set, and
only puts databases it has not flushed on the list, keeps where it stands. -/
theorem FlushAt.frame {s s' : Registry} {L L' rest : List Nat} (h : FlushAt s L rest)
    (hpc : s'.fpc = s.fpc) (hf : s'.flushed = s.flushed) (hd : s'.deleted = s.deleted)
    (hr : ∀ d ∈ s.flushed, s.retired d = true → s'.retired d = true) (hL : L <:+ L')
    (hn : ∀ d ∈ s.flushed, d ∉ L → d ∉ L') : FlushAt s' L' rest := by
  unfold FlushAt at h ⊢
  rw [hpc, hf, hd]
  revert h
  cases s.fpc with
  | idle | done => exact id
  | visit | checkRetired | advance => exact fun ⟨h₁, h₂⟩ => ⟨h₁.trans hL, h₂⟩
  | readTmp d => exact fun ⟨h₁, h₂, h₃⟩ => ⟨h₁.trans hL, h₂, hr d h₂ h₃⟩
  | unlink d _ => exact fun ⟨h₁, h₂, h₃, h₄⟩ => ⟨h₁.trans hL, h₂, hr d h₂ h₃, h₄⟩
  | delete d _ =>
    exact fun ⟨h₁, h₂, h₃, h₄, h₅⟩ => ⟨h₁.trans hL, h₂, hr d h₂ h₃, h₄, hn d h₂ h₅⟩

/-- What every state of an interleaving keeps, `L` being the list and `rest` what the flusher has
still to visit: a flushed database is deleted, on the list, or about to be deleted; a deleted one
was flushed, is off the list and was retired. -/
structure Shape (s : Registry) (L rest : List Nat) : Prop where
  linked : Linked s L
  flushAt : FlushAt s L rest
  flushed_lt : ∀ d ∈ s.flushed, d < s.fresh
  deleted : ∀ d ∈ s.deleted, d ∈ s.flushed ∧ d ∉ L ∧ s.retired d = true
  kept : ∀ d ∈ s.flushed, d ∈ s.deleted ∨ d ∈ L ∨ ∃ tmp, s.fpc = .delete d tmp

theorem shape_init : Shape init [] [] :=
  ⟨⟨List.nodup_nil, rfl, nofun, nofun, List.chain'_nil, nofun⟩, ⟨rfl, rfl⟩, nofun, nofun, nofun⟩

section Shape

variable {s : Registry} {L rest : List Nat}

theorem flushStep_fresh (s : Registry) : s.flushStep.fresh = s.fresh := by
  unfold flushStep
  split <;> rfl

/-- Once started, the flusher visits only databases on the list. -/
theorem FlushAt.mem_list (h : FlushAt s L rest) (hpc : s.fpc ≠ .idle) : ∀ d ∈ rest, d ∈ L := by
  unfold FlushAt at h
  revert h hpc
  cases s.fpc with
  | idle => exact fun _ h => absurd rfl h
  | visit | delete => exact fun h _ _ hd => h.1.subset hd
  | checkRetired | advance | readTmp | unlink =>
    exact fun h _ _ hd => h.1.subset (List.mem_cons_of_mem _ hd)
  | done => exact fun h _ _ hd => by simp [h] at hd

/-- A database the flusher has flushed and is not about to delete is deleted or on the list. -/
theorem Shape.kept_of (h : Shape s L rest) (hpc : ∀ d tmp, s.fpc ≠ .delete d tmp) :
    ∀ d ∈ s.flushed, d ∈ s.deleted ∨ d ∈ L := fun d hd =>
  (h.kept d hd).imp_right fun h' => h'.resolve_right fun ⟨tmp, e⟩ => hpc d tmp e

/-- A step of the flusher that only moves it keeps the shape, wherever it then stands. -/
theorem Shape.setPc (h : Shape s L rest) (hpc : ∀ d tmp, s.fpc ≠ .delete d tmp) {p : FlushPc}
    {rest' : List Nat} (hat : FlushAt { s with fpc := p } L rest') :
    Shape { s with fpc := p } L rest' :=
  ⟨h.linked.congr rfl rfl rfl h.linked.live, hat, h.flushed_lt, h.deleted,
    fun d hd => (h.kept_of hpc d hd).imp_right Or.inl⟩

theorem Shape.acquire (h : Shape s L rest) : Shape s.acquire (s.fresh :: L) rest := by
  have hnf : ∀ d ∈ s.flushed, d ≠ s.fresh := fun d hd => (h.flushed_lt d hd).ne
  have hret : ∀ d ∈ s.flushed, s.acquire.retired d = s.retired d := fun d hd =>
    Function.update_noteq (hnf d hd) _ _
  refine ⟨h.linked.acquire fun hd => hnf _ (h.deleted _ hd).1 rfl,
    h.flushAt.frame rfl rfl rfl (fun d hd hr => (hret d hd).trans hr) (List.suffix_cons _ _)
      fun d hd hL hm => ?_, fun d hd => Nat.lt_succ_of_lt (h.flushed_lt d hd), fun d hd => ?_,
    fun d hd => (h.kept d hd).imp_right (Or.imp_left (List.mem_cons_of_mem _))⟩
  · rcases List.mem_cons.mp hm with rfl | hm
    exacts [hnf _ hd rfl, hL hm]
  · obtain ⟨hf, hL, hr⟩ := h.deleted d hd
    refine ⟨hf, fun hm => ?_, (hret d hf).trans hr⟩
    rcases List.mem_cons.mp hm with rfl | hm
    exacts [hnf _ hf rfl, hL hm]

theorem Shape.retire (h : Shape s L rest) (d : Nat) : Shape (s.retire d) L rest := by
  have hret : ∀ x, s.retired x = true → (s.retire d).retired x = true := fun x hx => by
    by_cases hxd : x = d <;> simp [Registry.retire, Function.update_apply, hxd, hx]
  exact ⟨h.linked.congr rfl rfl rfl h.linked.live,
    h.flushAt.frame rfl rfl rfl (fun x _ => hret x) (List.suffix_refl L) fun _ _ => id,
    h.flushed_lt, fun x hx => (h.deleted x hx).imp_right (And.imp_right (hret x)), h.kept⟩


/-- The flusher's read of `s_list` (line 605): it has the whole list still to visit. -/
theorem Shape.start (h : Shape s L rest) (hpc : s.fpc = .idle) :
    Shape s.flushStep L L ∧ s.flushStep.flushed = [] := by
  have e : s.flushStep = { s with fpc := .visit s.head } := by simp only [flushStep, hpc]
  have hat : s.flushed = [] ∧ s.deleted = [] := by simpa only [FlushAt, hpc] using h.flushAt
  rw [e]
  exact ⟨h.setPc (by simp [hpc]) ⟨List.suffix_refl L, h.linked.head_eq⟩, hat.1⟩

/-- What a step of the flusher from `s` to `s'` keeps, `rest` being what it had still to visit
of the list `L`: what it has flushed and what it has still to visit stay what they were, its own
steps left go down, and a database leaves the list only once flushed. -/
def Flushes (s s' : Registry) (L rest : List Nat) : Prop :=
  ∃ L' rest', Shape s' L' rest' ∧
    (s.fpc ≠ .idle → s'.fpc ≠ .idle ∧ s'.flushed ++ rest' = s.flushed ++ rest ∧
      (s.fpc ≠ .done → 6 * rest'.length + s'.fpc.left < 6 * rest.length + s.fpc.left)) ∧
    ∀ d ∈ L, d ∉ L' → d ∈ s.flushed

/-- A step that only moves the flusher, to where it stands well with fewer steps left. -/
theorem Shape.flushes_move (h : Shape s L rest) (hpc : ∀ d tmp, s.fpc ≠ .delete d tmp)
    {p : FlushPc} (hp : p ≠ .idle) (hlt : p.left < s.fpc.left)
    (hat : FlushAt { s with fpc := p } L rest) : Flushes s { s with fpc := p } L rest :=
  ⟨L, rest, h.setPc hpc hat, fun _ => ⟨hp, rfl, fun _ => Nat.add_lt_add_left hlt _⟩,
    fun _ hd hn => absurd hd hn⟩

/-- Lines 611-623: the flusher flushes and clears `d`, the first of what it has left. -/
theorem Shape.flushes_visit {d : Nat} {r : List Nat} (h : Shape s L (d :: r))
    (hpc : s.fpc = .visit (some d)) : Flushes s s.flushStep L (d :: r) := by
  have hsuf : d :: r <:+ L := by
    simpa only [FlushAt, hpc, List.head?_cons, and_true] using h.flushAt
  have hdL : d ∈ L := hsuf.subset (List.mem_cons_self d r)
  rw [show s.flushStep = { s with fpc := .checkRetired d, flushed := s.flushed ++ [d] } by
    simp only [Registry.flushStep, hpc]]
  refine ⟨L, r, ⟨h.linked.congr rfl rfl rfl h.linked.live,
    ⟨hsuf, List.mem_append_right _ (List.mem_singleton_self d)⟩, fun x hx => ?_, fun x hx => ?_,
    fun x hx => ?_⟩, fun _ => ⟨by simp, by simp, fun _ => ?_⟩, fun _ hd hn => absurd hd hn⟩
  · rcases List.mem_append.mp hx with hx | hx
    · exact h.flushed_lt x hx
    · obtain rfl := List.mem_singleton.mp hx
      exact (h.linked.live x hdL).1
  · obtain ⟨hf, hL, hr⟩ := h.deleted x hx
    exact ⟨List.mem_append_left _ hf, hL, hr⟩
  · rcases List.mem_append.mp hx with hx | hx
    · exact (h.kept_of (by simp [hpc]) x hx).imp_right Or.inl
    · obtain rfl := List.mem_singleton.mp hx
      exact .inr (.inl hdL)
  · simp only [FlushPc.left, List.length_cons, hpc]
    omega

/-- Lines 628-636: `d` comes off the list, wherever it stands on it. -/
theorem Shape.flushes_unlink {d : Nat} {tmp : Option Nat} (h : Shape s L rest)
    (hpc : s.fpc = .unlink d tmp) : Flushes s s.flushStep L rest := by
  obtain ⟨⟨pre, rfl⟩, hd, hr, rfl⟩ : d :: rest <:+ L ∧ d ∈ s.flushed ∧ s.retired d = true ∧
      tmp = rest.head? := by simpa only [FlushAt, hpc] using h.flushAt
  have hl := h.linked.unlink rfl
  have hdL : d ∉ pre ++ rest := (List.nodup_cons.mp (List.nodup_middle.mp h.linked.nodup)).1
  have hmem : ∀ x ∈ pre ++ d :: rest, x = d ∨ x ∈ pre ++ rest := fun x hx => by
    simp only [List.mem_append, List.mem_cons] at hx ⊢
    tauto
  rw [show s.flushStep = { s.unlinkAt d with
      head := if s.head = some d then rest.head? else s.head, fpc := .delete d rest.head? } by
    simp only [Registry.flushStep, hpc]]
  refine ⟨pre ++ rest, rest, ⟨hl.congr rfl rfl rfl hl.live,
    ⟨List.suffix_append pre rest, hd, hr, rfl, hdL⟩, h.flushed_lt, fun x hx => ?_, fun x hx => ?_⟩,
    fun _ => ⟨by simp, rfl, fun _ => by simp [FlushPc.left, hpc]⟩, fun x hx hn => ?_⟩
  · obtain ⟨hf, hxL, hxr⟩ := h.deleted x hx
    refine ⟨hf, fun hm => hxL ?_, hxr⟩
    exact List.mem_append.mpr ((List.mem_append.mp hm).imp_right (List.mem_cons_of_mem d))
  · rcases h.kept_of (by simp [hpc]) x hx with hx | hx
    · exact .inl hx
    · rcases hmem x hx with rfl | hx
      exacts [.inr (.inr ⟨_, rfl⟩), .inr (.inl hx)]
  · rcases hmem x hx with rfl | hx
    exacts [hd, absurd hx hn]

/-- Lines 638-639: `delete db; db = tmp`, of a database off the list. -/
theorem Shape.flushes_delete {d : Nat} {tmp : Option Nat} (h : Shape s L rest)
    (hpc : s.fpc = .delete d tmp) : Flushes s s.flushStep L rest := by
  obtain ⟨hsuf, hd, hr, htmp, hdL⟩ : rest <:+ L ∧ d ∈ s.flushed ∧ s.retired d = true ∧
      tmp = rest.head? ∧ d ∉ L := by simpa only [FlushAt, hpc] using h.flushAt
  rw [show s.flushStep = { s with fpc := .visit tmp, deleted := s.deleted ++ [d] } by
    simp only [Registry.flushStep, hpc]]
  refine ⟨L, rest, ⟨h.linked.congr rfl rfl rfl fun x hx => ⟨(h.linked.live x hx).1, fun hm => ?_⟩,
    ⟨hsuf, htmp⟩, h.flushed_lt, fun x hx => ?_, fun x hx => ?_⟩,
    fun _ => ⟨by simp, rfl, fun _ => by simp [FlushPc.left, hpc]⟩, fun _ hd hn => absurd hd hn⟩
  · rcases List.mem_append.mp hm with hm | hm
    · exact (h.linked.live x hx).2 hm
    · exact hdL (List.mem_singleton.mp hm ▸ hx)
  · rcases List.mem_append.mp hx with hx | hx
    · exact h.deleted x hx
    · obtain rfl := List.mem_singleton.mp hx
      exact ⟨hd, hdL, hr⟩
  · rcases h.kept x hx with hx' | hx' | ⟨tmp', hx'⟩
    · exact .inl (List.mem_append_left _ hx')
    · exact .inr (.inl hx')
    · rw [hpc] at hx'
      cases hx'
      exact .inl (List.mem_append_right _ (List.mem_singleton_self _))

/-- One step of the flusher, wherever it stands. -/
theorem Shape.flushStep (h : Shape s L rest) : Flushes s s.flushStep L rest := by
  have hat := h.flushAt
  unfold FlushAt at hat
  cases hpc : s.fpc with
  | idle => exact ⟨L, L, (h.start hpc).1, fun h => (h hpc).elim, fun _ hd hn => absurd hd hn⟩
  | done =>
    rw [show s.flushStep = s by simp only [Registry.flushStep, hpc]]
    exact ⟨L, rest, h, fun hi => ⟨hi, rfl, fun hd => (hd hpc).elim⟩, fun _ hd hn => absurd hd hn⟩
  | visit cur =>
    rw [hpc] at hat
    cases cur with
    | none =>
      obtain rfl : rest = [] := List.head?_eq_none_iff.mp hat.2.symm
      rw [show s.flushStep = { s with fpc := .done } by simp only [Registry.flushStep, hpc]]
      exact h.flushes_move (by simp [hpc]) nofun (by simp [hpc, FlushPc.left]) rfl
    | some d =>
      obtain ⟨r, rfl⟩ : ∃ r, rest = d :: r := by
        cases rest with
        | nil => cases hat.2
        | cons y r => cases hat.2; exact ⟨r, rfl⟩
      exact h.flushes_visit hpc
  | checkRetired d =>
    rw [hpc] at hat
    rw [show s.flushStep = { s with fpc := if s.retired d then .readTmp d else .advance d } by
      simp only [Registry.flushStep, hpc]]
    cases hr : s.retired d
    · exact h.flushes_move (by simp [hpc]) (by simp) (by simp [hpc, FlushPc.left]) hat
    · exact h.flushes_move (by simp [hpc]) (by simp) (by simp [hpc, FlushPc.left])
        ⟨hat.1, hat.2, hr⟩
  | advance d =>
    rw [hpc] at hat
    rw [show s.flushStep = { s with fpc := .visit (s.next d) } by
      simp only [Registry.flushStep, hpc]]
    exact h.flushes_move (by simp [hpc]) nofun (by simp [hpc, FlushPc.left])
      ⟨(List.suffix_cons d rest).trans hat.1, h.linked.next_eq hat.1⟩
  | readTmp d =>
    rw [hpc] at hat
    rw [show s.flushStep = { s with fpc := .unlink d (s.next d) } by
      simp only [Registry.flushStep, hpc]]
    exact h.flushes_move (by simp [hpc]) nofun (by simp [hpc, FlushPc.left])
      ⟨hat.1, hat.2.1, hat.2.2, h.linked.next_eq hat.1⟩
  | unlink d tmp => exact h.flushes_unlink hpc
  | delete d tmp => exact h.flushes_delete hpc

/-- What one step of any interleaving keeps: a database leaves the list only once flushed, and
one created by the step is on it. -/
theorem Shape.step {s' : Registry} (h : Shape s L rest) (hs : Step s s') :
    ∃ L' rest', Shape s' L' rest' ∧
      (s.fpc ≠ .idle → s'.fpc ≠ .idle ∧ s'.flushed ++ rest' = s.flushed ++ rest) ∧
      (∀ d ∈ L, d ∉ L' → d ∈ s.flushed) ∧ ∀ d, s.fresh ≤ d → d < s'.fresh → d ∈ L' := by
  cases hs with
  | acquire =>
    refine ⟨_, rest, h.acquire, fun h => ⟨h, rfl⟩,
      fun d hd hn => absurd (List.mem_cons_of_mem _ hd) hn, fun d h₁ h₂ => ?_⟩
    obtain rfl : d = s.fresh := by
      simp only [Registry.acquire] at h₂
      omega
    exact List.mem_cons_self _ _
  | retire d =>
    exact ⟨L, rest, h.retire d, fun h => ⟨h, rfl⟩, fun _ hd hn => absurd hd hn,
      fun _ h₁ h₂ => absurd h₂ (Nat.not_lt.mpr h₁)⟩
  | flush =>
    obtain ⟨L', rest', h', hf, hg⟩ := h.flushStep
    exact ⟨L', rest', h', fun hi => ⟨(hf hi).1, (hf hi).2.1⟩, hg, fun _ h₁ h₂ => by
      rw [flushStep_fresh] at h₂
      omega⟩

/-- Every reachable state has the shape, for some list. -/
theorem Reachable.shape (h : Reachable s) : ∃ L rest, Shape s L rest := by
  induction h with
  | refl => exact ⟨[], [], shape_init⟩
  | tail _ hs ih =>
    obtain ⟨L, rest, h⟩ := ih
    obtain ⟨L', rest', h', -⟩ := h.step hs
    exact ⟨L', rest', h'⟩

end Shape

/-- A state of a run of `flush_cb` from its read of `s_list`, which then held `L₀`, when the
ids below `n` were taken: what it has flushed and what it has still to visit make up `L₀`, and
every database created since is on the list. -/
structure FlushRun (n : Nat) (L₀ : List Nat) (s : Registry) (L rest : List Nat) : Prop where
  shape : Shape s L rest
  started : s.fpc ≠ .idle
  trace : s.flushed ++ rest = L₀
  old : ∀ d ∈ L₀, d < n
  inserted : ∀ d, n ≤ d → d < s.fresh → d ∈ L

section FlushRun

variable {n : Nat} {L₀ : List Nat} {s s' : Registry} {L rest L' rest' : List Nat}

/-- A step of the run, as `Shape.step` describes it, stays in the run. -/
theorem FlushRun.of_shape (h : FlushRun n L₀ s L rest) (h' : Shape s' L' rest')
    (hst : s'.fpc ≠ .idle) (htr : s'.flushed ++ rest' = s.flushed ++ rest)
    (hg : ∀ d ∈ L, d ∉ L' → d ∈ s.flushed) (hnew : ∀ d, s.fresh ≤ d → d < s'.fresh → d ∈ L') :
    FlushRun n L₀ s' L' rest' := by
  refine ⟨h', hst, htr.trans h.trace, h.old, fun d h₁ h₂ => ?_⟩
  by_cases hd : d < s.fresh
  · by_contra hn
    have hf := hg d (h.inserted d h₁ hd) hn
    have := h.old d (h.trace ▸ List.mem_append_left rest hf)
    omega
  · exact hnew d (Nat.not_lt.mp hd) h₂

theorem FlushRun.step (h : FlushRun n L₀ s L rest) (hs : Step s s') :
    ∃ L' rest', FlushRun n L₀ s' L' rest' := by
  obtain ⟨L', rest', h', hf, hg, hnew⟩ := h.shape.step hs
  exact ⟨L', rest', h.of_shape h' (hf h.started).1 (hf h.started).2 hg hnew⟩

theorem FlushRun.run (h : FlushRun n L₀ s L rest) (hr : Relation.ReflTransGen Step s s') :
    ∃ L' rest', FlushRun n L₀ s' L' rest' := by
  induction hr with
  | refl => exact ⟨L, rest, h⟩
  | tail _ hs ih =>
    obtain ⟨L', rest', h'⟩ := ih
    exact h'.step hs

/-- A database of `L₀` off the list was flushed and found retired. -/
theorem FlushRun.removed (h : FlushRun n L₀ s L rest) :
    ∀ d ∈ L₀, d ∉ L → d ∈ s.flushed ∧ s.retired d = true := by
  intro d hd hn
  have hf : d ∈ s.flushed := by
    rw [← h.trace] at hd
    exact (List.mem_append.mp hd).resolve_right fun hr =>
      hn (h.shape.flushAt.mem_list h.started d hr)
  refine ⟨hf, ?_⟩
  rcases h.shape.kept d hf with hdel | hL | ⟨tmp, hpc⟩
  · exact (h.shape.deleted d hdel).2.2
  · exact absurd hL hn
  · have hat := h.shape.flushAt
    simp only [FlushAt, hpc] at hat
    exact hat.2.2.1

/-- Running alone, the flusher returns within the steps it has left. -/
theorem FlushRun.finishes {k : Nat} (h : FlushRun n L₀ s L rest)
    (hk : 6 * rest.length + s.fpc.left ≤ k) : (flushStep^[k] s).fpc = .done := by
  induction k generalizing s L rest with
  | zero =>
    show s.fpc = .done
    have hst := h.started
    revert hk hst
    cases s.fpc <;> simp [FlushPc.left]
  | succ k ih =>
    rw [Function.iterate_succ_apply]
    by_cases hd : s.fpc = .done
    · have e : s.flushStep = s := by simp only [flushStep, hd]
      rw [e, Function.iterate_fixed e]
      exact hd
    · obtain ⟨L', rest', h', hf, hg⟩ := h.shape.flushStep
      obtain ⟨hst, htr, hlt⟩ := hf h.started
      refine ih (h.of_shape h' hst htr hg fun _ h₁ h₂ => ?_) (by have := hlt hd; omega)
      rw [flushStep_fresh] at h₂
      omega

/-- `d` is deleted, or the flusher, past its read of `d`'s flag, is on its way to delete it. -/
def Deleting (d : Nat) (s : Registry) : Prop :=
  d ∈ s.deleted ∨ (s.fpc.at = some d ∧ s.fpc ≠ .checkRetired d)

/-- `d` is not deleted, and the flusher is not at `d`. -/
def Spared (d : Nat) (s : Registry) : Prop := d ∉ s.deleted ∧ s.fpc.at ≠ some d

/-- Only the flusher's `delete` adds a database to `deleted`, and none leaves it. -/
theorem deleted_step (hs : Step s s') : s.deleted ⊆ s'.deleted := by
  cases hs with
  | acquire | retire => exact fun _ => id
  | flush =>
    unfold flushStep
    split <;> first | exact fun _ => id | exact fun _ hx => List.mem_append_left _ hx

/-- Only the flusher's visit adds a database to `flushed`, and none leaves it. -/
theorem flushed_step (hs : Step s s') : s.flushed ⊆ s'.flushed := by
  cases hs with
  | acquire | retire => exact fun _ => id
  | flush =>
    unfold flushStep
    split <;> first | exact fun _ => id | exact fun _ hx => List.mem_append_left _ hx

theorem flushed_run (hr : Relation.ReflTransGen Step s s') : s.flushed ⊆ s'.flushed := by
  induction hr with
  | refl => exact fun _ => id
  | tail _ hs ih => exact fun _ hx => flushed_step hs (ih hx)

/-- From its read of a set flag, the flusher goes on to delete `d`, and `d` stays deleted. -/
theorem Deleting.step {d : Nat} (h : Deleting d s) (hs : Step s s') : Deleting d s' := by
  cases hs with
  | acquire | retire => exact h
  | flush =>
    rcases h with h | ⟨hat, hne⟩
    · exact .inl (deleted_step (.flush s) h)
    cases hpc : s.fpc with
    | readTmp x | unlink x _ =>
      obtain rfl : x = d := by simpa [hpc, FlushPc.at] using hat
      exact .inr ⟨by simp [flushStep, hpc, FlushPc.at], by simp [flushStep, hpc]⟩
    | delete x _ =>
      obtain rfl : x = d := by simpa [hpc, FlushPc.at] using hat
      exact .inl (by simp [flushStep, hpc])
    | checkRetired x =>
      obtain rfl : x = d := by simpa [hpc, FlushPc.at] using hat
      exact absurd hpc hne
    | idle | visit _ | advance _ | done => simp [hpc, FlushPc.at] at hat

theorem Deleting.run {d : Nat} (h : Deleting d s) (hr : Relation.ReflTransGen Step s s') :
    Deleting d s' := by
  induction hr with
  | refl => exact h
  | tail _ hs ih => exact ih.step hs

/-- A step of the flusher deletes only the database it stands at. -/
theorem mem_deleted_flushStep {d : Nat} (h : d ∈ s.flushStep.deleted) :
    d ∈ s.deleted ∨ s.fpc.at = some d := by
  unfold flushStep at h
  split at h <;> simp_all [unlinkAt, FlushPc.at, eq_comm]

/-- After a step of the flusher it stands at the database it stood at or at the one it visited. -/
theorem at_flushStep {d : Nat} (h : s.flushStep.fpc.at = some d) :
    s.fpc.at = some d ∨ s.fpc = .visit (some d) := by
  unfold flushStep at h
  split at h <;> (try split at h) <;> simp_all [FlushPc.at]

/-- Once the flusher has visited `d` and is not at it, nothing deletes `d`: the flusher visits
each database of the list it read once. -/
theorem FlushRun.spared_step {d : Nat} (h : FlushRun n L₀ s L rest) (hnd : L₀.Nodup)
    (hd : d ∈ s.flushed) (hk : Spared d s) (hs : Step s s') : Spared d s' := by
  cases hs with
  | acquire | retire => exact hk
  | flush =>
    refine ⟨fun hm => (mem_deleted_flushStep hm).elim hk.1 hk.2, fun hat => ?_⟩
    rcases at_flushStep hat with hat | hpc
    · exact hk.2 hat
    -- the flusher visits only what it has still to visit, and `d` is not among it
    · have hrest : d ∈ rest := by
        have hat := h.shape.flushAt
        simp only [FlushAt, hpc] at hat
        exact List.mem_of_mem_head? hat.2.symm
      exact (List.nodup_append.mp (h.trace ▸ hnd)).2.2 hd hrest

theorem FlushRun.spared_run {d : Nat} (h : FlushRun n L₀ s L rest) (hnd : L₀.Nodup)
    (hd : d ∈ s.flushed) (hk : Spared d s) (hr : Relation.ReflTransGen Step s s') :
    Spared d s' := by
  induction hr with
  | refl => exact hk
  | tail hr₂ hs ih =>
    obtain ⟨L₂, rest₂, h₂⟩ := h.run hr₂
    exact h₂.spared_step hnd (flushed_run hr₂ hd) ih hs

/-- The flusher's read of `d`'s flag, at `s₁`, decides `d`'s fate: once the flusher returns,
`d` is deleted exactly when it found the flag set. -/
theorem FlushRun.deleted_iff_found {d : Nat} {s₁ : Registry} (h : FlushRun n L₀ s₁ L rest)
    (hnd : L₀.Nodup) (hpc : s₁.fpc = .checkRetired d)
    (hr : Relation.ReflTransGen Step s₁.flushStep s') (hdone : s'.fpc = .done) :
    d ∈ s'.deleted ↔ s₁.retired d = true := by
  have hat : d :: rest <:+ L ∧ d ∈ s₁.flushed := by simpa only [FlushAt, hpc] using h.shape.flushAt
  have hstep : s₁.flushStep = { s₁ with fpc := if s₁.retired d then .readTmp d else .advance d } :=
    by simp only [flushStep, hpc]
  cases hret : s₁.retired d
  · -- found clear: the flusher moves on, and `d` is spared for good
    have hdel : d ∉ s₁.deleted := fun hm =>
      (h.shape.deleted d hm).2.1 (hat.1.subset (List.mem_cons_self d rest))
    obtain ⟨L', rest', h'⟩ := h.step (.flush s₁)
    have hk : Spared d s₁.flushStep := by
      rw [hstep, hret]
      exact ⟨hdel, by simp [FlushPc.at]⟩
    simpa using (h'.spared_run hnd (by rw [hstep]; exact hat.2) hk hr).1
  · -- found set: the flusher goes on to unlink and delete `d`
    have hk : Deleting d s₁.flushStep := by
      rw [hstep, hret]
      exact .inr ⟨rfl, by simp⟩
    rcases hk.run hr with hm | ⟨hat', -⟩
    · simpa using hm
    · simp [hdone, FlushPc.at] at hat'

end FlushRun

/-- What `flush_cb` does from a state `s₀` before its read of `s_list`, against any interleaving
of `acquire` and `retire`, with `L₀` the list it reads: along any run, the list stays doubly
linked; the flusher has flushed a prefix of `L₀`, so each database once and in list order; on
its own it returns within `6 * L₀.length + 5` steps, having flushed all of `L₀` and deleted
exactly the databases of `L₀` no longer on the list, and, of each database whose flag it read at
some state `s₁`, deleted it exactly when the flag was set at `s₁`; a database of `L₀` leaves the
list only once flushed and found retired, and one deleted is flushed and off the list; every
database created since its read stays on the list. -/
def FlushCbSpec (s₀ : Registry) : Prop :=
  ∃ L₀, Linked s₀ L₀ ∧ ∀ s, Relation.ReflTransGen Step s₀.flushStep s → ∃ L, Linked s L ∧
    s.flushed <+: L₀ ∧
    (flushStep^[6 * L₀.length + 5] s).fpc = .done ∧
    (s.fpc = .done → s.flushed = L₀ ∧ ∀ d ∈ L₀, d ∈ s.deleted ↔ d ∉ L) ∧
    (s.fpc = .done → ∀ d s₁, Relation.ReflTransGen Step s₀.flushStep s₁ →
      s₁.fpc = .checkRetired d → Relation.ReflTransGen Step s₁.flushStep s →
      (d ∈ s.deleted ↔ s₁.retired d = true)) ∧
    (∀ d ∈ L₀, d ∉ L → d ∈ s.flushed ∧ s.retired d = true) ∧
    (∀ d ∈ s.deleted, d ∈ s.flushed ∧ d ∉ L) ∧
    ∀ d, s₀.fresh ≤ d → d < s.fresh → d ∈ L

theorem flush_cb_visits_list {s₀ : Registry} (h₀ : Reachable s₀) (hidle : s₀.fpc = .idle) :
    FlushCbSpec s₀ := by
  obtain ⟨L₀, _, hs₀⟩ := h₀.shape
  obtain ⟨h₁, hfl⟩ := hs₀.start hidle
  have hrun : FlushRun s₀.fresh L₀ s₀.flushStep L₀ L₀ :=
    ⟨h₁, by simp [flushStep, hidle], by rw [hfl]; rfl, fun d hd => (hs₀.linked.live d hd).1,
      fun d h₁ h₂ => by rw [flushStep_fresh] at h₂; omega⟩
  refine ⟨L₀, hs₀.linked, fun s hr => ?_⟩
  obtain ⟨L, rest, h⟩ := hrun.run hr
  have hlen : s.flushed.length + rest.length = L₀.length := by rw [← h.trace, List.length_append]
  refine ⟨L, h.shape.linked, ⟨rest, h.trace⟩, h.finishes (by have := s.fpc.left_le; omega),
    fun hd => ?_, fun hd d s₁ hr₁ hpc hr₂ => ?_, h.removed,
    fun d hd => (h.shape.deleted d hd).imp_right And.left, h.inserted⟩
  rotate_left
  -- the flusher's read of a flag decides the database's fate
  · obtain ⟨L₁, rest₁, h₁⟩ := hrun.run hr₁
    exact h₁.deleted_iff_found hs₀.linked.nodup hpc hr₂ hd
  -- once returned, the flusher has nothing left to visit and stands at no database
  have hr : rest = [] := by simpa only [FlushAt, hd] using h.shape.flushAt
  refine ⟨by rw [← h.trace, hr, List.append_nil], fun d hd₀ =>
    ⟨fun hdel => (h.shape.deleted d hdel).2.1, fun hn => ?_⟩⟩
  rcases h.shape.kept d (h.removed d hd₀ hn).1 with hdel | hL | ⟨tmp, hpc⟩
  · exact hdel
  · exact absurd hL hn
  · rw [hd] at hpc
    cases hpc

theorem flush_cb_visits_two_databases :
    Reachable init.acquire.acquire ∧ init.acquire.acquire.fpc = .idle ∧
      FlushCbSpec init.acquire.acquire :=
  have h : Reachable init.acquire.acquire := .tail (.single (.acquire _)) (.acquire _)
  ⟨h, rfl, flush_cb_visits_list h rfl⟩

end Registry

end CaliperAggregate
