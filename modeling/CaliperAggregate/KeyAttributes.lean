import CaliperAggregate.Snapshot

/-!
# Resolving the key attributes' names

`s_key_attribute_names` holds the names the `key` setting lists, and `s_key_attribute_ids` the
ids that `process_snapshot` compares against (lines 388, 465), as `Config.keyAttributeIds`.
`init_static_data` sets every id to `CALI_INV_ID` (line 737). `post_init_cb` (lines 657-670) looks
every name up, and `create_attribute_cb` (lines 672-683) gives an attribute created later its id.
`finish_cb` warns about each key attribute whose id is still `CALI_INV_ID` (lines 695-699).

The events are the service's callbacks as Caliper fires them. `get_attribute` is Caliper's, not in
the sources: `postInit` takes it as a lookup, `none` for `Attribute::invalid`.
-/

namespace CaliperAggregate

/-- `s_key_attribute_names` and `s_key_attribute_ids`. `s_key_attributes` holds the attributes
themselves, of which nothing reads more than the ids. -/
structure KeyAttributes where
  names : List String
  ids : List UInt64

/-- A callback that touches the key attributes: `create_attribute_cb` for an attribute with a name
and an id, or `post_init_cb` with `get_attribute`. -/
inductive KeyEvent where
  | createAttribute (name : String) (id : UInt64)
  | postInit (lookup : String → Option UInt64)

namespace KeyAttributes

/-- Lines 731-738 of `init_static_data`: the names of the `key` setting, each id `CALI_INV_ID`. -/
def init (invId : UInt64) (names : List String) : KeyAttributes :=
  ⟨names, List.replicate names.length invId⟩

/-- `create_attribute_cb(c, attr)`: `std::find` finds the first key attribute of the name, which
takes the id. -/
def createAttribute (s : KeyAttributes) (name : String) (id : UInt64) : KeyAttributes :=
  let i := s.names.indexOf name
  if i < s.names.length then { s with ids := s.ids.set i id } else s

/-- Lines 662-669 of `post_init_cb`: each key attribute whose name `get_attribute` knows takes the
id it gives. -/
def postInit (s : KeyAttributes) (lookup : String → Option UInt64) : KeyAttributes :=
  { s with ids := List.zipWith (fun name id => (lookup name).getD id) s.names s.ids }

/-- The callback's effect. -/
def step (s : KeyAttributes) : KeyEvent → KeyAttributes
  | .createAttribute name id => s.createAttribute name id
  | .postInit lookup => s.postInit lookup

/-- The key attributes after the callbacks `evs`, in order. -/
def run (s : KeyAttributes) (evs : List KeyEvent) : KeyAttributes := evs.foldl step s

/-- The warning of line 697 for a key attribute's name. -/
def warningText (name : String) : String :=
  "aggregate: warning: key attribute \x27" ++ name ++ "\x27 was never encountered"

/-- The warnings lines 695-699 of `finish_cb` log, in order. -/
def finishWarnings (invId : UInt64) (s : KeyAttributes) : List String :=
  (List.zip s.names s.ids).filterMap fun p => if p.2 = invId then some (warningText p.1) else none

end KeyAttributes

end CaliperAggregate
