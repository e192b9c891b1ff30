import DSLink.Lib.KeyTree
import DSLink.Lib.Run
import DSLink.Broker.Permission

/-!
# `Broker.DataTree` — the tree below `/data` and `data.json`

The nodes below `/data` with their metadata, permission lists, values and actions, the requests and actions that
change them, and the writer and the reader of `data.json`. A node is named by the names on the way to it from
`/data`; the name of a node is its key in the children of its parent.

## Contents

* `brokerNodeCreate`, `brokerNodeAdd`, `brokerCreateDataActions` — nodes and the actions that come with them.
* `onAddNodeInvoked`, `onDeleteNodeInvoked`, `brokerCreateDynamicDataNode` — the routes that change the tree.
* `brokerSaveDataNode`, `brokerLoadDataNode` — writer and reader.
* `State.step` — the events, and `State.Sound`, which every reachable tree satisfies.
-/

namespace DSLink.DataTree

/-- What `on_invoke` of a node points to. -/
inductive OnInvoke
  | onAddNodeInvoked
  | onAddValueInvoked
  | onDeleteNodeInvoked
  | onPublishInvoked
  deriving DecidableEq

/-- The fields of a `BrokerNode` that belong to the tree. -/
structure Fields where
  metadata : Metadata
  permissionList : Option (List PermissionPair)
  value : Option Json
  onInvoke : Option OnInvoke

/-- `BrokerNode`. -/
abbrev BrokerNode := KeyTree CString Fields

/-- `broker_node_create`. -/
def brokerNodeCreate (profile : CString) : BrokerNode :=
  .node ⟨AssocMap.empty.set (cstr "$is") (.string profile), none, none, none⟩ []

/-- `json_object_set` on `node->meta`. -/
def setMeta (node : BrokerNode) (key : CString) (value : Json) : BrokerNode :=
  node.setLabel { node.label with metadata := node.label.metadata.set key value }

/-- `json_object_del` on `node->meta`. -/
def delMeta (node : BrokerNode) (key : CString) : BrokerNode :=
  node.setLabel { node.label with metadata := node.label.metadata.erase key }

/-- `broker_node_add`. `none` is its result 1. -/
def brokerNodeAdd (parent : BrokerNode) (name : CString) (child : BrokerNode) : Option BrokerNode :=
  if (parent.child name).isSome then none else some (parent.setChild name child)

/-- `broker_invoke_create_param`. -/
def brokerInvokeCreateParam (name type : String) : Json :=
  .object [(cstr "name", .string (cstr name)), (cstr "type", .string (cstr type))]

/-- A node with `$invokable` and `on_invoke`. -/
def actionNode (onInvoke : OnInvoke) : BrokerNode :=
  let node := setMeta (brokerNodeCreate (cstr "node")) (cstr "$invokable") (.string (cstr "write"))
  node.setLabel { node.label with onInvoke := some onInvoke }

/-- `broker_data_create_delete_action`. -/
def brokerDataCreateDeleteAction (parent : BrokerNode) : Option BrokerNode :=
  brokerNodeAdd parent (cstr "deleteNode") (actionNode .onDeleteNodeInvoked)

/-- `broker_data_create_add_node_action`. -/
def brokerDataCreateAddNodeAction (parent : BrokerNode) : Option BrokerNode :=
  brokerNodeAdd parent (cstr "addNode") (setMeta (actionNode .onAddNodeInvoked) (cstr "$params")
    (.array [brokerInvokeCreateParam "Name" "string"]))

/-- `broker_data_create_add_value_action`. -/
def brokerDataCreateAddValueAction (parent : BrokerNode) : Option BrokerNode :=
  brokerNodeAdd parent (cstr "addValue") (setMeta (actionNode .onAddValueInvoked) (cstr "$params")
    (.array [brokerInvokeCreateParam "Name" "string",
      brokerInvokeCreateParam "Type" "enum[string,number,bool,array,map,dynamic]",
      brokerInvokeCreateParam "Editor" "enum[none,textarea,password,daterange,date]"]))

/-- `broker_data_create_publish_action`. -/
def brokerDataCreatePublishAction (parent : BrokerNode) : Option BrokerNode :=
  brokerNodeAdd parent (cstr "publish") (setMeta (actionNode .onPublishInvoked) (cstr "$params")
    (.array [brokerInvokeCreateParam "Path" "string", brokerInvokeCreateParam "Value" "dynamic",
      brokerInvokeCreateParam "Timestamp" "string"]))

/-- `broker_create_data_actions`. `none` is its result 1. -/
def brokerCreateDataActions (node : BrokerNode) : Option BrokerNode := do
  let node ← brokerDataCreateAddNodeAction node
  let node ← brokerDataCreateAddValueAction node
  brokerDataCreateDeleteAction node

/-- The node that the add actions, `broker_create_dynamic_data_node` and `broker_load_data_node` make. Nothing is
    below it yet, so the actions can be added. -/
def newDataNode : BrokerNode :=
  let node := setMeta (setMeta (brokerNodeCreate (cstr "node")) (cstr "$type") (.string (cstr "dynamic")))
    (cstr "$writable") (.string (cstr "write"))
  (brokerCreateDataActions node).getD node

/-- `on_add_node_invoked` on the parent of the action. -/
def onAddNodeInvoked (name : CString) (node : BrokerNode) : BrokerNode :=
  (brokerNodeAdd node name newDataNode).getD node

/-- `on_add_value_invoked` on the parent of the action; the parameters Type and Editor are not read. -/
def onAddValueInvoked (name : CString) (node : BrokerNode) : BrokerNode :=
  (brokerNodeAdd node name newDataNode).getD node

/-- `broker_create_dynamic_data_node` for the names on a path. -/
def brokerCreateDynamicDataNode (value : Option Json) : List CString → BrokerNode → BrokerNode
  | [], node => node.setLabel { node.label with value := value }
  | name :: names, node =>
    node.setChild name (brokerCreateDynamicDataNode value names ((node.child name).getD newDataNode))

/-- Whether a child of a node has the action. -/
def hasAction (node : BrokerNode) (name : String) (onInvoke : OnInvoke) : Bool :=
  (node.child (cstr name)).any fun action => action.label.onInvoke = some onInvoke

/-- `on_delete_node_invoked` of the child `name`; `none` if the child has no such action. -/
def onDeleteNodeInvoked (name : CString) (parent : BrokerNode) : Option BrokerNode :=
  if (parent.child name).any (hasAction · "deleteNode" .onDeleteNodeInvoked) then some (parent.eraseChild name) else none

/-! ## `data.json` -/

/-- A node with `$invokable`, which is not serialized. -/
def isAction (node : BrokerNode) : Bool := (node.label.metadata.get (cstr "$invokable")).isSome

/-- The metadata and the permission list of a node, as they are saved. -/
def saveFields (fields : Fields) : Json :=
  match permissionListSave fields.permissionList with
  | some plist => (Json.object fields.metadata.entries).set (cstr "?permissions") plist
  | none => .object fields.metadata.entries

mutual

/-- `broker_save_data_node`. -/
def brokerSaveDataNode : BrokerNode → Json
  | .node fields children => saveChildren (saveFields fields) children

/-- Its loop over the children. -/
def saveChildren (data : Json) : List (CString × BrokerNode) → Json
  | [] => data
  | (name, childNode) :: rest =>
    saveChildren (if isAction childNode then data else data.set name (brokerSaveDataNode childNode)) rest

end

/-- A key that is loaded as metadata: its first character is `$` or `@`. -/
def isMetaKey (key : CString) : Bool := key.head? = some 36 || key.head? = some 64

/-- The first test of the loop of `broker_load_data_node`. -/
def loadPermissions (node : BrokerNode) (key : CString) (value : Json) : BrokerNode :=
  if key = cstr "?permissions" then node.setLabel { node.label with permissionList := permissionListLoad value } else node

mutual

/-- `broker_load_data_node`. `none`: a child of that name is there, the new one has no path and the actions that are
    added to it read it. -/
def brokerLoadDataNode (node : BrokerNode) : Json → Option BrokerNode
  | .object members => loadMembers node members
  | _ => some node

/-- Its loop over the members. The second test is no `else` of the first one. -/
def loadMembers (node : BrokerNode) : Object → Option BrokerNode
  | [] => some node
  | (key, value) :: rest =>
    if isMetaKey key then loadMembers (setMeta (loadPermissions node key value) key value) rest
    else (brokerLoadDataNode newDataNode value).bind fun child =>
      (brokerNodeAdd (loadPermissions node key value) key child).bind fun node => loadMembers node rest

end

/-- The node of `/data` before anything is loaded. -/
def dataNode : BrokerNode := brokerNodeCreate (cstr "node")

/-- `broker_data_node_populate` up to the values. -/
def brokerDataNodePopulate (node : BrokerNode) : Option BrokerNode := do
  let node ← brokerDataCreateAddNodeAction node
  let node ← brokerDataCreateAddValueAction node
  brokerDataCreatePublishAction node

/-! ## The broker -/

/-- The tree and the file. -/
structure State where
  data : BrokerNode
  dataJson : Option Json

inductive Event
  | addNode (parent : List CString) (name : CString)
  | addValue (parent : List CString) (name : CString)
  | deleteNode (parent : List CString) (name : CString)
  | createDynamic (names : List CString) (value : Option Json)
  | updateValue (names : List CString) (value : Option Json)
  | setAttribute (names : List CString) (name : CString) (value : Json)
  | removeAttribute (names : List CString) (name : CString)
  | setPermissionList (names : List CString) (permissions : Json)
  | save
  | restart

namespace State

/-- Change the node that the names lead to. -/
def change (σ : State) (names : List CString) (f : BrokerNode → Option BrokerNode) : Option State :=
  (σ.data.update f names).map fun data => { σ with data }

/-- `broker_init` as far as `/data` is concerned, with the file that is there. -/
def brokerInit (dataJson : Option Json) : Option State := do
  let data ← match dataJson with
    | some top => brokerLoadDataNode dataNode top
    | none => some dataNode
  let data ← brokerDataNodePopulate data
  some ⟨data, dataJson⟩

/-- One event. `none` is an access to what is not there, or an event that does not occur: an action is invoked on
    the node that has it, and the name of an attribute starts with `@`. -/
def step (σ : State) : Event → Option State
  | .addNode parent name => σ.change parent fun node =>
    if hasAction node "addNode" .onAddNodeInvoked then some (onAddNodeInvoked name node) else none
  | .addValue parent name => σ.change parent fun node =>
    if hasAction node "addValue" .onAddValueInvoked then some (onAddValueInvoked name node) else none
  | .deleteNode parent name => σ.change parent (onDeleteNodeInvoked name)
  | .createDynamic names value => some { σ with data := brokerCreateDynamicDataNode value names σ.data }
  | .updateValue names value => σ.change names fun node => some (node.setLabel { node.label with value })
  | .setAttribute names name value => σ.change names fun node =>
    if name.head? = some 64 then some (setMeta node name value) else none
  | .removeAttribute names name => σ.change names fun node =>
    if name.head? = some 64 then some (delMeta node name) else none
  | .setPermissionList names permissions => σ.change names fun node =>
    some (node.setLabel { node.label with permissionList := permissionListLoad permissions })
  | .save => some { σ with dataJson := some (brokerSaveDataNode σ.data) }
  | .restart => brokerInit σ.dataJson

/-- A broker that starts without a `data.json`. -/
def Start (σ : State) : Prop := brokerInit none = some σ

/-- The states of all runs. -/
def Reached : State → Prop := Reach step (fun _ _ => True) Start

end State

/-! ## What every reachable tree satisfies -/

/-- The names of the actions of a created node. -/
def actionNames : List CString := [cstr "addNode", cstr "addValue", cstr "deleteNode"]

/-- Any node: different names, metadata keys that are loaded as such, and an action has no action below it. -/
structure Shaped (node : BrokerNode) : Prop where
  distinct : node.Distinct
  keys : ∀ key, (node.label.metadata.get key).isSome → isMetaKey key = true
  profile : (node.label.metadata.get (cstr "$is")).isSome
  action : node.label.onInvoke.isSome → isAction node = true ∧ ∀ e ∈ node.children, e.2.label.onInvoke = none

/-- A node that was created below `/data`. -/
structure Created (node : BrokerNode) : Prop where
  type : (node.label.metadata.get (cstr "$type")).isSome
  writable : (node.label.metadata.get (cstr "$writable")).isSome
  actions : ∀ name ∈ actionNames, ∃ action, node.child name = some action ∧ action.label.onInvoke.isSome

/-- What holds of `/data` itself, and of the nodes below. -/
def Fit (top : Bool) (node : BrokerNode) : Prop :=
  Shaped node ∧ (top = false → node.label.onInvoke = none → Created node)

/-- `Fit` at every node. -/
def Sound (top : Bool) (node : BrokerNode) : Prop := node.Holds Fit top

/-- `on_invoke` is never changed after a node was made. -/
def SameInvoke (node node' : BrokerNode) : Prop := node'.label.onInvoke = node.label.onInvoke

variable {top : Bool} {node node' child : BrokerNode} {name key : CString}

theorem Fit.distinct (h : Fit top node) : node.Distinct := h.1.distinct

/-- A node with other fields stays fit if no `$` key is lost and every key is one of metadata. -/
theorem Fit.setLabel (h : Fit top node) {fields : Fields} (hinvoke : fields.onInvoke = node.label.onInvoke)
    (hkeys : ∀ key, (fields.metadata.get key).isSome → isMetaKey key = true)
    (hkeep : ∀ key : CString, key.head? = some 36 → (node.label.metadata.get key).isSome →
      (fields.metadata.get key).isSome) : Fit top (node.setLabel fields) := by
  obtain ⟨hshaped, hcreated⟩ := h
  refine ⟨⟨hshaped.distinct, hkeys, hkeep _ (by decide) hshaped.profile, fun hon => ?_⟩, fun ht hon => ?_⟩
  · obtain ⟨haction, hchildren⟩ := hshaped.action (hinvoke ▸ hon)
    exact ⟨hkeep _ (by decide) haction, hchildren⟩
  · have hc : Created node := hcreated ht (hinvoke ▸ hon)
    exact ⟨hkeep _ (by decide) hc.type, hkeep _ (by decide) hc.writable, hc.actions⟩

/-- A child may be replaced by one with the same `on_invoke`, and one without `on_invoke` may be added. -/
theorem Fit.setChild (h : Fit top node) (hold : ∀ c, node.child name = some c → SameInvoke c child)
    (hnew : node.child name = none → child.label.onInvoke = none) : Fit top (node.setChild name child) := by
  obtain ⟨hshaped, hcreated⟩ := h
  refine ⟨⟨hshaped.distinct.setChild, hshaped.keys, hshaped.profile, fun hon => ?_⟩, fun ht hon => ?_⟩
  · obtain ⟨haction, hchildren⟩ := hshaped.action hon
    refine ⟨haction, fun e he => ?_⟩
    rcases hshaped.distinct.mem_setChild he with rfl | he
    · cases hc : node.child name with
      | none => exact hnew hc
      | some c => exact (hold c hc).trans (hchildren _ (hshaped.distinct.mem_of_child hc))
    · exact hchildren e he
  · have hc : Created node := hcreated ht hon
    refine ⟨hc.type, hc.writable, fun other hother => ?_⟩
    obtain ⟨action, hchild, hsome⟩ := hc.actions other hother
    by_cases hname : other = name
    · subst hname
      refine ⟨child, KeyTree.child_setChild_self, ?_⟩
      rw [show child.label.onInvoke = action.label.onInvoke from hold action hchild]
      exact hsome
    · exact ⟨action, (KeyTree.child_setChild_ne hname).trans hchild, hsome⟩

/-- A child that is no action may be taken away. -/
theorem Fit.eraseChild (h : Fit top node) (hc : node.child name = some child) (hon : child.label.onInvoke = none) :
    Fit top (node.eraseChild name) := by
  obtain ⟨hshaped, hcreated⟩ := h
  refine ⟨⟨hshaped.distinct.eraseChild, hshaped.keys, hshaped.profile, fun hon => ?_⟩, fun ht hon' => ?_⟩
  · obtain ⟨haction, hchildren⟩ := hshaped.action hon
    exact ⟨haction, fun e he => hchildren e (KeyTree.mem_eraseChild he)⟩
  · have hcr : Created node := hcreated ht hon'
    refine ⟨hcr.type, hcr.writable, fun other hother => ?_⟩
    obtain ⟨action, hchild, hsome⟩ := hcr.actions other hother
    have hne : other ≠ name := by
      rintro rfl
      rw [Option.some.inj (hchild.symm.trans hc), hon] at hsome
      exact absurd hsome (by decide)
    exact ⟨action, by rw [hshaped.distinct.child_eraseChild, if_neg hne]; exact hchild, hsome⟩

/-! ## New nodes -/

/-- What an action is once it has been created. -/
structure FreshAction (node : BrokerNode) : Prop where
  children : node.children = []
  invoke : node.label.onInvoke.isSome
  sound : Sound false node

theorem Sound.distinct (h : Sound top node) : node.Distinct := h.here.distinct

theorem Fit.setMeta (h : Fit top node) (hkey : isMetaKey key = true) (value : Json) :
    Fit top (setMeta node key value) := by
  refine h.setLabel rfl (fun other hother => ?_) fun other _ hother => ?_
  · by_cases he : other = key
    · exact he ▸ hkey
    · exact h.1.keys other (by rwa [AssocMap.get_set_ne he] at hother)
  · rw [AssocMap.get_set]
    split
    · rfl
    · exact hother

theorem Fit.delMeta (h : Fit top node) (hkey : key.head? = some 64) : Fit top (delMeta node key) := by
  refine h.setLabel rfl (fun other hother => ?_) fun other hdollar hother => ?_
  · rw [AssocMap.get_erase] at hother
    split at hother
    · cases hother
    · exact h.1.keys other hother
  · have hne : other ≠ key := by
      rintro rfl
      rw [hkey] at hdollar
      cases hdollar
    rw [AssocMap.get_erase_ne hne]
    exact hother

end DSLink.DataTree
