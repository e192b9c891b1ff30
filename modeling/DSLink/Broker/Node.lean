import DSLink.Broker.Subscription

/-!
# `Broker.Node` — the node tree of `broker/src/node/node.c`

Looking a path up, adding a local or a downstream node, and the two strings the source cuts out of a path.
Whole-tree removal needs the streams and is in `Broker.Stream`.
-/

namespace DSLink

variable {J : Type}

/-! ## Paths -/

/-- `strchr(path, '/')`: the text before the first slash and, unless there is none, the rest from it on. -/
def splitSlash : CString → CString × Option CString
  | [] => ([], none)
  | c :: rest =>
    if c = slash then ([], some (c :: rest))
    else ((c :: (splitSlash rest).1), (splitSlash rest).2)

/-- `dslink_str_starts_with`. -/
def startsWith (a b : CString) : Bool := b.isPrefixOf a

/-- `broker_downstream_node_base_len`. The search starts `sizeof("/downstream/")` or `sizeof("/upstream/")`
    bytes into the path, which count the terminators of the literals; `none` where that is outside of it. -/
def brokerDownstreamNodeBaseLen (path : CString) : Option Nat := do
  let c ← path[1]?
  let offset := if c = 100 then 13 else 11
  if path.length < offset then none
  else
    match splitSlash (path.drop offset) with
    | (_, none) => some 0
    | (name, some _) => some (offset + name.length)

/-- The path of a child, as `broker_node_add` writes it. -/
def childPath (parent name : CString) : CString :=
  (if parent = [slash] then [] else parent) ++ slash :: name

namespace Broker

/-- `broker_node_get`, with the text stored through `out`. Every call is on a shorter path, so a fuel of
    the length of the path suffices. -/
def brokerNodeGetLoop (σ : Broker J) : Nat → NodeId → CString → Option (Option (NodeRef × CString))
  | 0, root, _ => some (some (.regular root, []))
  | fuel + 1, root, path =>
    if path = [slash] then some (some (.regular root, []))
    else
      let stripped : Bool := path.head? = some slash
      match splitSlash (if stripped then path.tail else path) with
      | (name, some rest) => do
        let node ← σ.node.get root
        match node.children.get name with
        | none => some none
        | some (.downstream d) => some (some (.downstream d, rest))
        | some (.regular n) => brokerNodeGetLoop σ fuel n rest
      | ([], none) => some (some (.regular root, []))
      | (name, none) => do
        let node ← σ.node.get root
        match node.children.get name with
        | none => some none
        | some (.downstream d) => some (some (.downstream d, if stripped then slash :: name else name))
        | some (.regular n) => some (some (.regular n, []))

/-- `broker_node_get` from the root; the inner `none` is the NULL result. -/
def brokerNodeGet (σ : Broker J) (path : CString) : Option (Option (NodeRef × CString)) :=
  brokerNodeGetLoop σ path.length σ.root path

/-! ## Adding nodes -/

/-- `broker_node_create` and `broker_node_add`; no node is returned when the parent has a child of that
    name, and the created one is freed again. -/
def brokerNodeAdd (σ : Broker J) (parent : NodeId) (name : CString) : Option (Broker J × Option NodeId) := do
  let node ← σ.node.get parent
  match node.children.get name with
  | some _ => some (σ, none)
  | none =>
    let child : BrokerNode J := ⟨childPath node.path name, name, some parent, .empty, none, none, none⟩
    let id := σ.node.next
    let σ := { σ with node := σ.node.alloc child }
    some (σ.modNode parent (fun node => { node with children := node.children.set name (.regular id) }), some id)

/-- `broker_init_downstream_node`. A child of that name is replaced in the map; the callers look first. -/
def brokerInitDownstreamNode (σ : Broker J) (parent : NodeId) (name : CString) : Option (Broker J × DownId) := do
  let node ← σ.node.get parent
  let child : DownstreamNode J :=
    { path := node.path ++ slash :: name, name := name, parent := some parent, link := none, rid := 0,
      sid := 0, respSubStreams := .empty, respSubSids := .empty, reqSubPaths := .empty,
      reqSubSids := .empty, pendingAcks := none }
  let id := σ.dnode.next
  let σ := { σ with dnode := σ.dnode.alloc child }
  some (σ.modNode parent (fun node => { node with children := node.children.set name (.downstream id) }), id)

/-- `broker_node_update_value`. -/
def brokerNodeUpdateValue (cfg : Config) (σ : Broker J) (n : NodeId) (value now : J) : Option (Broker J) := do
  let node ← σ.node.get n
  let σ := σ.modNode n (fun node => { node with value := some value })
  match node.subStream with
  | none => some σ
  | some st => brokerUpdateSubStreamValue cfg σ st value none now

end Broker

end DSLink
