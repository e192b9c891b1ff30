import DSLink.Broker.Calls
import DSLink.Broker.DataTree
import Mathlib.Data.List.Infix

/-!
# `Broker.DynamicNodes` — nodes that a set or a publish creates

The whole tree of the broker as the two handlers see it that create nodes from the text of a path:
`broker_msg_handle_set` and `on_publish_continuous_invoked`. The guard compares the text with "/data",
`broker_node_get` and `broker_create_dynamic_data_node` each cut the text into names in their own way. The subscriptions
that wait for a node, and the file of a value, are not part of it.

## Contents
- `brokerNodeGet`, `brokerCreateDynamicDataNode` on the text of a path. `Request.handle`.
- `names`: both functions follow the names between the slashes.
- `Stays`: what a request has to do to a path without a node. When it does that.
-/

namespace DSLink.Dynamic

open DataTree (Fields)

/-- A node of the tree. A `DownstreamNode` has no fields here. -/
abbrev Node := KeyTree CString (Option Fields)

/-- `node->type == DOWNSTREAM_NODE`. -/
def isDownstream (node : Node) : Bool := node.label.isNone

/-- `node->value = value`. -/
def setValue (value : Option Json) (node : Node) : Node :=
  node.setLabel (node.label.map (fun fields => { fields with value }))

/-- The node that `broker_create_dynamic_data_node` makes, with its three actions. -/
def newDataNode : Node :=
  .node (some DataTree.newDataNode.label)
    (DataTree.newDataNode.children.map (fun e => (e.1, .node (some e.2.label) [])))

/-! ## Paths -/

/-- One leading slash is skipped. -/
def stripSlash (path : CString) : CString := if path.head? = some slash then path.tail else path

/-- `broker_node_get`: the names on the way to the node it finds. Every call is on a shorter path. -/
def getLoop : Nat → Node → CString → Option (List CString)
  | 0, _, _ => some []
  | fuel + 1, node, path =>
    if path = [slash] then some []
    else
      match splitSlash (stripSlash path) with
      | (name, some rest) =>
        match node.child name with
        | none => none
        | some child => if isDownstream child then some [name] else (getLoop fuel child rest).map (name :: ·)
      | ([], none) => some []
      | (name, none) => (node.child name).map (fun _ => [name])

/-- `broker_node_get` from the root. -/
def brokerNodeGet (root : Node) (path : CString) : Option (List CString) := getLoop path.length root path

/-- The recursion of `broker_create_dynamic_data_node`, with the way to the node that receives the value. A
    `DownstreamNode` would be taken for a `BrokerNode`. -/
def createLoop (value : Option Json) : Nat → Node → CString → Option (Node × List CString)
  | 0, _, _ => none
  | fuel + 1, node, path =>
    let path := stripSlash path
    if path = [] then some (setValue value node, [])
    else do
      let name := (splitSlash path).1
      let child := (node.child name).getD newDataNode
      if isDownstream child then none
      else
        let (child, place) ← createLoop value fuel child (((splitSlash path).2).getD [])
        some (node.setChild name child, name :: place)

/-- `broker_create_dynamic_data_node` from the root. -/
def brokerCreateDynamicDataNode (root : Node) (path : CString) (value : Option Json) : Option (Node × List CString) :=
  createLoop value (path.length + 1) root path

/-! ## The handlers -/

/-- A set or a publish. For a set, what `get_permission` allows at the path before its last slash and at the path. -/
inductive Request
  | set (path : CString) (value : Option Json) (attributeAllowed valueAllowed : Bool)
  | publish (path : CString) (value : Json)

/-- Change the node at a place, if it is a local one. -/
def change (root : Node) (place : List CString) (f : Fields → Fields) : Node :=
  (root.update (fun node => some (node.setLabel (node.label.map f))) place).getD root

/-- `broker_msg_check_set_arrtribtues` for a name that starts with `@`. `none` where it returns 0: then the set goes
    on. -/
def setAttribute (root : Node) (path : CString) (value : Option Json) (allowed : Bool) : Option Node :=
  match value with
  | none => some root
  | some value =>
    if !allowed then none
    else
      match brokerNodeGet root (path.take (path.length - (lastSegment path).length - 1)) with
      | none => some root
      | some place => some (change root place (fun fields =>
          { fields with metadata := fields.metadata.set (lastSegment path) value }))

/-- A value for a path, past all checks: the node that is there, or a new one. With it the place of the node that
    received the value. -/
def store (root : Node) (path : CString) (value : Option Json) : Option (Node × Option (List CString)) :=
  match brokerNodeGet root path with
  | some place => some (change root place (fun fields => { fields with value }), some place)
  | none =>
    if startsWith path (cstr "/data") then
      (brokerCreateDynamicDataNode root path value).map (fun made => (made.1, some made.2))
    else some (root, none)

/-- The value half of `broker_msg_handle_set`. A value for a downstream node is passed on to its link. -/
def setValueAt (root : Node) (path : CString) (value : Option Json) : Option (Node × Option (List CString)) :=
  if ((brokerNodeGet root path).bind root.find).any isDownstream then some (root, none)
  -- a segment that starts with '$' is a config of a local node
  else if (lastSegment path).head? = some 36 then some (root, none)
  else store root path value

/-- `broker_msg_handle_set` and `on_publish_continuous_invoked`. A set looks behind the last slash of its path, which
    has to be there. -/
def Request.handle (root : Node) : Request → Option (Node × Option (List CString))
  | .set path value attributeAllowed valueAllowed =>
    if slash ∉ path then none
    else
      let done := if (lastSegment path).head? = some 64 then setAttribute root path value attributeAllowed else none
      match done with
      | some root => some (root, none)
      | none => if valueAllowed then setValueAt root path value else some (root, none)
  | .publish path value =>
    if ((brokerNodeGet root path).bind root.find).any isDownstream then some (root, none)
    else store root path (some value)

/-- The `path` of a request. -/
def Request.path : Request → CString
  | .set path _ _ _ => path
  | .publish path _ => path

/-- The `value` of a request. -/
def Request.value : Request → Option Json
  | .set _ value _ _ => value
  | .publish _ value => some value

/-- The names that both functions cut out of a path: one slash is skipped before each. -/
def namesLoop : Nat → CString → List CString
  | 0, _ => []
  | fuel + 1, path =>
    let path := stripSlash path
    if path = [] then [] else (splitSlash path).1 :: namesLoop fuel (((splitSlash path).2).getD [])

/-- The same with enough fuel. -/
def names (path : CString) : List CString := namesLoop (path.length + 1) path

/-- The pieces between the slashes of a path. -/
def segments (path : CString) : List CString := (path.splitOn slash).filter (· ≠ [])

theorem segments_single {name : CString} (h : slash ∉ name) : segments name = [name].filter (· ≠ []) := by
  unfold segments
  rw [List.splitOn_eq_singleton h]

/-- `broker_node_get` along names. -/
def walk : Node → List CString → Option (List CString)
  | _, [] => some []
  | node, name :: rest =>
    match node.child name with
    | none => none
    | some child => if isDownstream child then some [name] else (walk child rest).map (name :: ·)

variable {node node' root root' : Node} {value : Option Json} {ks js place : List CString} {k : CString}

/-- The value of a node. -/
def valueOf (node : Node) : Option Json := node.label.bind Fields.value

/-- The value at a place. -/
def valueAt (root : Node) (place : List CString) : Option Json := (root.find place).bind valueOf

/-- No node on the way to a place is a downstream node. -/
def Open (node : Node) (ks : List CString) : Prop :=
  ∀ js n, js ≠ [] → js <+: ks → node.find js = some n → isDownstream n = false

theorem Open.child {c : Node} (h : Open node (k :: ks)) (hc : node.child k = some c) : isDownstream c = false ∧ Open c ks := by
  have hfind : ∀ js, node.find (k :: js) = c.find js := fun js => by rw [KeyTree.find_cons, hc, Option.bind_some]
  refine ⟨h [k] c (List.cons_ne_nil _ _) (by simp) (by rw [hfind, KeyTree.find_nil]), fun js n _ hjs hn => ?_⟩
  exact h (k :: js) n (List.cons_ne_nil _ _) (List.cons_prefix_cons.mpr ⟨rfl, hjs⟩) ((hfind js).trans hn)

/-- A node of `broker_init`. -/
def startNode (profile : String) (children : List (CString × Node)) : Node :=
  .node (some (DataTree.brokerNodeCreate (cstr profile)).label) children

/-- The root of `broker_init` with the nodes below it. -/
def brokerInit : Node :=
  startNode "dsa/broker" [(cstr "sys", startNode "static" []), (cstr "upstream", startNode "static" []),
    (cstr "data", startNode "node" []), (cstr "downstream", startNode "node" [])]

end DSLink.Dynamic
