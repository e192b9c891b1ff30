import DSLink.Broker.Link

/-!
# `Broker.Data` — the nodes clients create under `/data`

`data/data.c` and the value half of `msg/msg_set.c`.
-/

namespace DSLink

variable {J : Type}

/-- The text after the last slash, `strrchr(path, '/') + 1`. -/
def lastSegment (path : CString) : CString := (path.reverse.takeWhile (· ≠ slash)).reverse

namespace Broker

/-- `handle_pending_sub`. -/
def handlePendingSub (cfg : Config) (σ : Broker J) (n : NodeId) (now : J) : Option (Broker J) := do
  let node ← σ.node.get n
  match σ.localPendingSub.get node.path with
  | none => some σ
  | some subs =>
    let σ := { σ with localPendingSub := σ.localPendingSub.erase node.path }
    let σ ← subs.foldlM (fun σ s => σ.brokerHandleLocalSubscribe cfg n s now) σ
    some (σ.subsListFree subs)

/-- Set `on_invoke` of a child that was just added. -/
def addAction (σ : Broker J) (parent : NodeId) (name : CString) (action : DataAction) :
    Option (Broker J × Option NodeId) := do
  let (σ, child) ← σ.brokerNodeAdd parent name
  match child with
  | none => some (σ, none)
  | some c => some (σ.modNode c (fun node => { node with onInvoke := some action }), some c)

/-- `broker_node_free` on what may be NULL. -/
def freeIfAny (σ : Broker J) (child : Option NodeId) : Option (Broker J) :=
  match child with
  | none => some σ
  | some c => σ.brokerNodeFree (.regular c)

/-- `broker_create_data_actions`, with its return value. -/
def brokerCreateDataActions (σ : Broker J) (n : NodeId) : Option (Broker J × Int) := do
  let (σ, addNode) ← σ.addAction n (cstr "addNode") .addNode
  let (σ, addValue) ← σ.addAction n (cstr "addValue") .addValue
  let (σ, deleteNode) ← σ.addAction n (cstr "deleteNode") .deleteNode
  if addNode.isSome ∧ addValue.isSome ∧ deleteNode.isSome then some (σ, 0)
  else
    let σ ← σ.freeIfAny addNode
    let σ ← σ.freeIfAny addValue
    let σ ← σ.freeIfAny deleteNode
    some (σ, 1)

/-- `on_add_node_invoked` on the action node `n` with the parameter `Name`. -/
def onAddNodeInvoked (cfg : Config) (σ : Broker J) (n : NodeId) (name : Option CString) (now : J) :
    Option (Broker J) := do
  match name with
  | none => some σ
  | some name =>
    let action ← σ.node.get n
    let parent ← action.parent
    let (σ, child) ← σ.brokerNodeAdd parent name
    match child with
    | none => some σ
    | some c =>
      let (σ, _) ← σ.brokerCreateDataActions c
      σ.handlePendingSub cfg c now

/-- `on_add_value_invoked`, which looks at the result of `broker_create_data_actions`. -/
def onAddValueInvoked (cfg : Config) (σ : Broker J) (n : NodeId) (name : Option CString) (now : J) :
    Option (Broker J) := do
  match name with
  | none => some σ
  | some name =>
    let action ← σ.node.get n
    let parent ← action.parent
    let (σ, child) ← σ.brokerNodeAdd parent name
    match child with
    | none => some σ
    | some c =>
      let (σ, failed) ← σ.brokerCreateDataActions c
      if failed ≠ 0 then σ.brokerNodeFree (.regular c) else σ.handlePendingSub cfg c now

/-- `on_delete_node_invoked` on the action node `n`. -/
def onDeleteNodeInvoked (σ : Broker J) (n : NodeId) : Option (Broker J) := do
  let action ← σ.node.get n
  let parent ← action.parent
  σ.brokerNodeFree (.regular parent)

/-- `broker_create_dynamic_data_node`. Every call is on a shorter path, so a fuel above the length of the
    path suffices. The pending list that is resolved after a child was added is the one of `n` itself. -/
def brokerCreateDynamicDataNode (cfg : Config) (value now : J) :
    Nat → Broker J → NodeId → CString → Option (Broker J)
  | 0, _, _, _ => none
  | fuel + 1, σ, n, path =>
    let path := if path.head? = some slash then path.tail else path
    if path = [] then σ.brokerNodeUpdateValue cfg n value now
    else do
      let name := (splitSlash path).1
      let rest := ((splitSlash path).2).getD []
      let node ← σ.node.get n
      match node.children.get name with
      | some (.regular c) => brokerCreateDynamicDataNode cfg value now fuel σ c rest
      | some (.downstream _) => none
      | none =>
        let (σ, child) ← σ.brokerNodeAdd n name
        match child with
        | none => some σ
        | some c =>
          let σ ← σ.handlePendingSub cfg n now
          let (σ, _) ← σ.brokerCreateDataActions c
          brokerCreateDynamicDataNode cfg value now fuel σ c rest

/-- `on_publish_continuous_invoked`. -/
def onPublishContinuousInvoked (cfg : Config) (σ : Broker J) (path : CString) (value now : J) :
    Option (Broker J) := do
  let node ← σ.brokerNodeGet path
  match node with
  | some (.regular n, _) => σ.brokerNodeUpdateValue cfg n value now
  | some (.downstream _, _) => some σ
  | none =>
    if startsWith path (cstr "/data") then
      σ.brokerCreateDynamicDataNode cfg value now (path.length + 1) σ.root path
    else some σ

/-- The request is passed on to a link that is there. -/
def forward (σ : Broker J) (d : DownId) : Option (Broker J) := do
  let node ← σ.dnode.get d
  match node.wsSend .other with
  | none => some σ
  | some node => some (σ.modDnode d (fun _ => node))

/-- `broker_msg_handle_set` past its checks, for a path whose last segment is no attribute. -/
def brokerMsgHandleSet (cfg : Config) (σ : Broker J) (path : CString) (value now : J) : Option (Broker J) := do
  let node ← σ.brokerNodeGet path
  match node with
  | some (.downstream d, _) => σ.forward d
  | some (.regular n, _) =>
    -- a segment that starts with '$' is a config of a local node
    if (lastSegment path).head? = some 36 then some σ else σ.brokerNodeUpdateValue cfg n value now
  | none =>
    if (lastSegment path).head? = some 36 then some σ
    else if startsWith path (cstr "/data") then
      σ.brokerCreateDynamicDataNode cfg value now (path.length + 1) σ.root path
    else some σ

end Broker

end DSLink
