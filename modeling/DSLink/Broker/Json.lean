import DSLink.Broker.State

/-!
# `Broker.Json` — JSON values as the broker handles them

The part of jansson the broker calls. A string is the C string `json_string_value` gives, an object is the list
of its members in the order in which they were first set, and a real is its 64 bits. NULL is `none`.
-/

namespace DSLink

/-- `json_t`. -/
inductive Json
  | null
  | bool (b : Bool)
  | integer (i : Int)
  | real (bits : UInt64)
  | string (s : CString)
  | array (elems : List Json)
  | object (members : List (CString × Json))

/-- The members of an object. -/
abbrev Object := List (CString × Json)

namespace Json

/-- `json_object_get`, which gives NULL for what is no object. -/
def get (j : Json) (key : CString) : Option Json :=
  match j with
  | .object members => AssocMap.lookupIn key members
  | _ => none

/-- `json_object_set`. -/
def set (j : Json) (key : CString) (value : Json) : Json :=
  match j with
  | .object members => .object (AssocMap.setIn key value members)
  | j => j

/-- `json_string_value`. -/
def stringValue : Json → Option CString
  | .string s => some s
  | _ => none

/-- `json_integer_value`. -/
def integerValue : Json → Int
  | .integer i => i
  | _ => 0

/-- `json_is_object`. -/
def isObject : Json → Bool
  | .object _ => true
  | _ => false

theorem get_set_self {members : Object} (key : CString) (value : Json) :
    ((Json.object members).set key value).get key = some value := by
  show AssocMap.lookupIn key (AssocMap.setIn key value members) = some value
  rw [AssocMap.lookupIn_setIn, if_pos rfl]

theorem get_set_ne {j : Json} {key key' : CString} (value : Json) (h : key' ≠ key) :
    (j.set key value).get key' = j.get key' := by
  cases j with
  | object members =>
    show AssocMap.lookupIn key' (AssocMap.setIn key value members) = AssocMap.lookupIn key' members
    rw [AssocMap.lookupIn_setIn, if_neg h]
  | _ => rfl

/-- Only an object has members. -/
theorem eq_object_of_get {j : Json} {key : CString} {value : Json} (h : j.get key = some value) :
    ∃ members, j = .object members := by
  cases j with
  | object members => exact ⟨members, rfl⟩
  | _ => cases h

theorem set_object (members : Object) (key : CString) (value : Json) :
    (Json.object members).set key value = .object (AssocMap.setIn key value members) := rfl

end Json

end DSLink
