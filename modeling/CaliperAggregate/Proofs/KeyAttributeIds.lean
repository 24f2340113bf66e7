import CaliperAggregate.KeyAttributes
import Mathlib.Data.List.Nodup

/-!
# The key attributes' ids are those of their names

What the key attributes are meant to hold is a map from names to ids: each callback gives a name
the id of the attribute it reports (`KeyEvent.apply`). With distinct names, the list the code keeps
is that map read at each name, after any callbacks in any order, and `finish_cb` warns exactly
about the names the map still sends to `CALI_INV_ID` (`run_refines`). One step keeps the
correspondence (`step_ids`): `create_attribute_cb` sets the slot `std::find` finds, which is the
name's only one (`set_indexOf_map`).

A name listed twice breaks it: `std::find` stops at the first copy, so a later copy takes no id
from `create_attribute_cb`; with only such callbacks it keeps `CALI_INV_ID`, and `finish_cb` warns
that it was never encountered (`run_later_copy`).
-/

namespace CaliperAggregate

/-- Reference definition, from the specification: the id each name last took, the callback's effect
on a map from names to ids. -/
def KeyEvent.apply (g : String → UInt64) : KeyEvent → String → UInt64
  | .createAttribute name id => Function.update g name id
  | .postInit lookup => fun n => (lookup n).getD (g n)

namespace KeyAttributes

section Map

variable {g : String → UInt64} {name : String} {id : UInt64}

theorem map_update_of_not_mem {l : List String} (hm : name ∉ l) :
    l.map (Function.update g name id) = l.map g :=
  List.map_congr_left fun y hy => Function.update_noteq (fun h : y = name => hm (h ▸ hy)) _ _

/-- On distinct names, setting the slot of a name's first copy sets the name's only slot. -/
theorem set_indexOf_map : ∀ {l : List String}, l.Nodup → name ∈ l →
    (l.map g).set (l.indexOf name) id = l.map (Function.update g name id)
  | x :: xs, hnd, hm => by
    obtain ⟨hx, hnd⟩ := List.nodup_cons.mp hnd
    by_cases hxn : x = name
    · subst hxn
      rw [List.indexOf_cons_self, List.map_cons, List.set_cons_zero, List.map_cons,
        Function.update_same, map_update_of_not_mem hx]
    · rw [List.indexOf_cons_ne _ hxn, List.map_cons, List.set_cons_succ, List.map_cons,
        Function.update_noteq hxn, set_indexOf_map hnd ((List.mem_cons.mp hm).resolve_left
          (Ne.symm hxn))]

end Map

/-- One callback on the key attributes of distinct names `names`, whose ids are `g` read at each
name: afterwards they are the callback's map read at each name. -/
theorem step_ids {names : List String} (hnd : names.Nodup) {g : String → UInt64}
    {s : KeyAttributes} (hn : s.names = names) (hi : s.ids = names.map g) (e : KeyEvent) :
    (s.step e).names = names ∧ (s.step e).ids = names.map (e.apply g) := by
  cases e with
  | createAttribute name id =>
    simp only [step, createAttribute, KeyEvent.apply]
    split_ifs with hlt
    · rw [hn] at hlt ⊢
      exact ⟨rfl, by rw [hi, set_indexOf_map hnd (List.indexOf_lt_length.mp hlt)]⟩
    · rw [hn] at hlt
      exact ⟨hn, by rw [hi, map_update_of_not_mem (mt List.indexOf_lt_length.mpr hlt)]⟩
  | postInit lookup =>
    refine ⟨hn, ?_⟩
    simp only [step, postInit, KeyEvent.apply, hn, hi, List.zipWith_map_right, List.zipWith_same]

theorem run_ids {names : List String} (hnd : names.Nodup) :
    ∀ (evs : List KeyEvent) {g : String → UInt64} {s : KeyAttributes},
      s.names = names → s.ids = names.map g →
      (s.run evs).names = names ∧ (s.run evs).ids = names.map (evs.foldl KeyEvent.apply g)
  | [], _, _, hn, hi => ⟨hn, hi⟩
  | e :: evs, _, _, hn, hi =>
    run_ids hnd evs (step_ids hnd hn hi e).1 (step_ids hnd hn hi e).2

/-- `finish_cb` warns about the names that the ids send to `CALI_INV_ID`, in order. -/
theorem finishWarnings_map (invId : UInt64) (g : String → UInt64) :
    ∀ names : List String, finishWarnings invId ⟨names, names.map g⟩ =
      (names.filter fun n => g n = invId).map warningText
  | [] => rfl
  | n :: names => by
    have ih := finishWarnings_map invId g names
    simp only [finishWarnings, List.map_cons, List.zip_cons_cons, List.filterMap_cons] at ih ⊢
    by_cases h : g n = invId <;> simp [h, ih]

/-- After any callbacks, in any order, from `init_static_data`, on distinct key attribute names:
each key attribute's id is the one the latest callback gave its name, or `CALI_INV_ID`; and
`finish_cb` warns, in order, about exactly the names no callback gave an id other than
`CALI_INV_ID`. -/
theorem run_refines (invId : UInt64) {names : List String} (hnd : names.Nodup)
    (evs : List KeyEvent) :
    (run (init invId names) evs).ids = names.map (evs.foldl KeyEvent.apply fun _ => invId) ∧
      finishWarnings invId (run (init invId names) evs) =
        (names.filter fun n => evs.foldl KeyEvent.apply (fun _ => invId) n = invId).map
          warningText := by
  obtain ⟨hn, hi⟩ := run_ids hnd evs (g := fun _ => invId) (s := init invId names) rfl
    (by rw [init, List.map_const'])
  generalize run (init invId names) evs = r at hn hi ⊢
  obtain ⟨ns, is⟩ := r
  dsimp only at hn hi
  subst hn hi
  exact ⟨rfl, finishWarnings_map invId _ ns⟩

/-- Two key attributes created before `post_init_cb`, a third after it. -/
theorem run_refines_three :
    ["a", "b", "c"].Nodup ∧
      (run (init 0 ["a", "b", "c"]) [.createAttribute "b" 5, .postInit fun n =>
          if n = "a" then some 7 else none, .createAttribute "c" 9]).ids =
        ["a", "b", "c"].map ([KeyEvent.createAttribute "b" 5, .postInit fun n =>
          if n = "a" then some 7 else none, .createAttribute "c" 9].foldl KeyEvent.apply
            fun _ => 0) ∧
      finishWarnings 0 (run (init 0 ["a", "b", "c"]) [.createAttribute "b" 5, .postInit fun n =>
          if n = "a" then some 7 else none, .createAttribute "c" 9]) =
        (["a", "b", "c"].filter fun n => [KeyEvent.createAttribute "b" 5, .postInit fun n =>
          if n = "a" then some 7 else none, .createAttribute "c" 9].foldl KeyEvent.apply
            (fun _ => 0) n = 0).map warningText :=
  ⟨by decide, run_refines 0 (by decide) _⟩

/-- `create_attribute_cb` sets no slot but the first copy of a name: a later copy keeps its id. -/
theorem createAttribute_later_copy {names : List String} {s : KeyAttributes} (hn : s.names = names)
    {j : Nat} (hj : j < names.length) (hdup : names.indexOf names[j] < j) (name : String)
    (id : UInt64) :
    (s.createAttribute name id).names = names ∧ (s.createAttribute name id).ids[j]? = s.ids[j]? := by
  subst hn
  simp only [createAttribute]
  split_ifs with hlt
  · refine ⟨rfl, List.getElem?_set_ne fun hi => ?_⟩
    -- the slot set is the first copy of its name, which `j` is not
    have hname : s.names[j] = name := by
      simp only [← hi]
      exact List.getElem_indexOf hlt
    rw [hname, hi] at hdup
    exact Nat.lt_irrefl _ hdup
  · exact ⟨rfl, rfl⟩

theorem run_later_copy_ids {names : List String} {j : Nat} (hj : j < names.length)
    (hdup : names.indexOf names[j] < j) : ∀ (created : List (String × UInt64)) {s : KeyAttributes},
      s.names = names →
      (s.run (created.map fun a => .createAttribute a.1 a.2)).names = names ∧
        (s.run (created.map fun a => .createAttribute a.1 a.2)).ids[j]? = s.ids[j]?
  | [], _, hn => ⟨hn, rfl⟩
  | a :: created, s, hn => by
    obtain ⟨hn₁, hi₁⟩ := createAttribute_later_copy hn hj hdup a.1 a.2
    obtain ⟨hn₂, hi₂⟩ := run_later_copy_ids hj hdup created hn₁
    exact ⟨hn₂, hi₂.trans hi₁⟩

/-- With a key attribute name listed twice, after any `create_attribute_cb` callbacks and no
`post_init_cb`, the later copy keeps `CALI_INV_ID`, and `finish_cb` warns that it was never
encountered, whatever attributes were created. -/
theorem run_later_copy (invId : UInt64) {names : List String} {j : Nat} (hj : j < names.length)
    (hdup : names.indexOf names[j] < j) (created : List (String × UInt64)) :
    (run (init invId names) (created.map fun a => .createAttribute a.1 a.2)).ids[j]? =
        some invId ∧
      warningText names[j] ∈
        finishWarnings invId (run (init invId names) (created.map fun a => .createAttribute a.1 a.2)) := by
  obtain ⟨hn, hi⟩ := run_later_copy_ids hj hdup created (s := init invId names) rfl
  rw [init, List.getElem?_replicate_of_lt hj] at hi
  refine ⟨hi, List.mem_filterMap.mpr ⟨(names[j], invId), ?_, if_pos rfl⟩⟩
  -- slot `j` of the zipped names and ids
  refine List.mem_iff_getElem?.mpr ⟨j, List.getElem?_zip_eq_some.mpr ⟨?_, hi⟩⟩
  rw [hn]
  exact List.getElem?_eq_getElem hj

/-- The key names a, b, a; the attribute a is created: the second a keeps `CALI_INV_ID` and is
reported as never encountered. -/
theorem run_later_copy_repeated :
    2 < ["a", "b", "a"].length ∧ ["a", "b", "a"].indexOf ["a", "b", "a"][2] < 2 ∧
      (run (init 0 ["a", "b", "a"]) ([("a", 5)].map fun a => .createAttribute a.1 a.2)).ids[2]? =
          some 0 ∧
        warningText ["a", "b", "a"][2] ∈ finishWarnings 0
          (run (init 0 ["a", "b", "a"]) ([("a", 5)].map fun a => .createAttribute a.1 a.2)) :=
  ⟨by decide, by decide, run_later_copy 0 (by decide) (by decide) _⟩

end KeyAttributes

end CaliperAggregate
