import Mathlib.Logic.Relation
import Mathlib.Logic.Function.Basic

/-!
# The list of databases

Every thread's database sits on one doubly-linked list, `s_list`, linked through `m_next` and
`m_prev`. `acquire` (lines 566-586) puts a thread's new database at the head under
`s_list_lock`; `retire` (lines 588-595), run when the thread exits, sets its `m_retired`;
`flush_cb` (lines 597-646) walks the list from the head it read under the lock, flushing and
clearing each database, and unlinks and deletes those it finds retired.

A database is named by an id, each new one by the next fresh id. The flusher is a machine
(`FlushPc`): its locked sections are one step each, and so is each of its reads of `m_retired`
and `m_next` outside the lock. Flushing and clearing a database (lines 611-623) touch neither its
links nor its flag, and are one step, which records it in `flushed`.
-/

namespace CaliperAggregate

/-- Where `flush_cb` stands, with its locals `db` and `tmp`. -/
inductive FlushPc where
  /-- not yet at line 600 -/
  | idle
  /-- line 610: `while (db)` -/
  | visit (db : Option Nat)
  /-- line 625: reads `db->m_retired` -/
  | checkRetired (d : Nat)
  /-- line 641: `db = db->m_next` -/
  | advance (d : Nat)
  /-- line 626: `tmp = db->m_next` -/
  | readTmp (d : Nat)
  /-- lines 628-636, under `s_list_lock`: `db->unlink()`, and `s_list = tmp` if `db` heads it -/
  | unlink (d : Nat) (tmp : Option Nat)
  /-- lines 638-639: `delete db; db = tmp` -/
  | delete (d : Nat) (tmp : Option Nat)
  /-- line 645 -/
  | done
  deriving DecidableEq

/-- The databases and the list: `s_list`, each database's `m_next`, `m_prev` and `m_retired`,
the next fresh id, the flusher, and what it has flushed and deleted so far. -/
structure Registry where
  head : Option Nat
  next : Nat → Option Nat
  prev : Nat → Option Nat
  retired : Nat → Bool
  fresh : Nat
  fpc : FlushPc
  flushed : List Nat
  deleted : List Nat

namespace Registry

/-- Before any database exists and before `flush_cb` runs. -/
def init : Registry :=
  ⟨none, fun _ => none, fun _ => none, fun _ => false, 0, .idle, [], []⟩

/-- `acquire(c, true)` on a thread without a database (lines 570-582): `new AggregateDB(c)`, with
`m_retired`, `m_next`, `m_prev` cleared, spliced in at the head under the lock. -/
def acquire (s : Registry) : Registry :=
  { s with
    head := some s.fresh
    next := Function.update s.next s.fresh s.head
    prev := Function.update (match s.head with
      | some h => Function.update s.prev h (some s.fresh)
      | none => s.prev) s.fresh none
    retired := Function.update s.retired s.fresh false
    fresh := s.fresh + 1 }

/-- `retire(db)` (line 594): `db->m_retired.store(true)`. -/
def retire (s : Registry) (d : Nat) : Registry :=
  { s with retired := Function.update s.retired d true }

/-- `db->unlink()` (lines 210-215). -/
def unlinkAt (s : Registry) (d : Nat) : Registry :=
  { s with
    prev := match s.next d with
      | some n => Function.update s.prev n (s.prev d)
      | none => s.prev
    next := match s.prev d with
      | some p => Function.update s.next p (s.next d)
      | none => s.next }

/-- One step of `flush_cb`. -/
def flushStep (s : Registry) : Registry :=
  match s.fpc with
  | .idle => { s with fpc := .visit s.head }
  | .visit none => { s with fpc := .done }
  | .visit (some d) => { s with fpc := .checkRetired d, flushed := s.flushed ++ [d] }
  | .checkRetired d => { s with fpc := if s.retired d then .readTmp d else .advance d }
  | .advance d => { s with fpc := .visit (s.next d) }
  | .readTmp d => { s with fpc := .unlink d (s.next d) }
  | .unlink d tmp =>
    { s.unlinkAt d with
      head := if s.head = some d then tmp else s.head
      fpc := .delete d tmp }
  | .delete d tmp => { s with fpc := .visit tmp, deleted := s.deleted ++ [d] }
  | .done => s

/-- The steps of any interleaving: a thread acquires its database, a database not deleted is
retired, or the flusher takes a step. -/
inductive Step : Registry → Registry → Prop
  | acquire (s : Registry) : Step s s.acquire
  | retire (s : Registry) (d : Nat) : d < s.fresh → d ∉ s.deleted → Step s (s.retire d)
  | flush (s : Registry) : Step s s.flushStep

/-- The states some interleaving reaches from `init`. -/
def Reachable (s : Registry) : Prop := Relation.ReflTransGen Step init s

end Registry

end CaliperAggregate
