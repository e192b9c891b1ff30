import DSLink.Lib.Ref
import DSLink.Lib.Run
import DSLink.Broker.Json

/-!
# `Sdk.Responder` — the responder of the SDK

`sdk/src/msg/request_handler.c`, `list_response.c`, `sub_response.c` and the parts of `sdk/src/node.c` that change the
tree or send something. A responder is made for one connection and lives as long as it: a tree of nodes, two maps
for the values that are subscribed and two for the streams that are open.

A node is known by the names that lead to it from `super_root`. What a callback of the application does is an event
of its own. The string of a subscribed path is shared by two maps and counted; the number of a rid or a sid is shared
in the same way, and as every map that holds one has its own reference, the numbers are kept by value.

## Contents
- `Node`, `Node.getPath`, `Node.paths`.
- `Stream`, `State`, `Message`.
- `dslinkResponseList`, `dslinkResponseSub`, `dslinkResponseUnsub`, `dslinkRequestHandle`.
- `nodeAddChild`, `nodeRemove`, `nodeSetMeta`, `nodeUpdateValue`.
- `Event`, `step`.
-/

namespace DSLink.Responder

/-! ## Nodes -/

/-- `DSNode` without its children. `onInvocation` and `onValueSet` say that there is such a callback. -/
structure NodeData where
  path : CString
  name : CString
  profile : CString
  metaData : Option (AssocMap CString Json)
  value : Option Json
  valueTimestamp : Option CString
  onInvocation : Bool
  onValueSet : Bool

/-- `DSNode`. -/
inductive Node
  | mk (data : NodeData) (children : List (CString × Node))

namespace Node

/-- What the node itself has. -/
def data : Node → NodeData
  | .mk data _ => data

/-- `children`. -/
def children : Node → List (CString × Node)
  | .mk _ children => children

/-- `dslink_map_get` on the children. -/
def child (node : Node) (name : CString) : Option Node := AssocMap.lookupIn name node.children

/-- The node that the names lead to. -/
def find : Node → List CString → Option Node
  | node, [] => some node
  | node, name :: names => (node.child name).bind (fun c => c.find names)

/-- Change the node that the names lead to. -/
def modifyAt (f : Node → Node) : Node → List CString → Node
  | node, [] => f node
  | node, name :: names =>
    .mk node.data (node.children.map (fun c => if c.1 = name then (c.1, c.2.modifyAt f names) else c))

mutual

/-- The paths of a node and of all nodes below it, in the order in which they are freed. -/
def paths : Node → List CString
  | .mk data children => data.path :: pathsBelow children

def pathsBelow : List (CString × Node) → List CString
  | [] => []
  | (_, c) :: rest => c.paths ++ pathsBelow rest

end

/-- The loop of `dslink_node_get_path`, which gives the names of the node; every round shortens the path. -/
def getPathLoop : Nat → Node → CString → Option (List CString)
  | 0, _, _ => none
  | fuel + 1, root, path =>
    if path = [slash] then some []
    else
      let path := if path.head? = some slash then path.tail else path
      if slash ∈ path then
        let name := path.takeWhile (fun c => c ≠ slash)
        (root.child name).bind (fun c =>
          (getPathLoop fuel c (path.dropWhile (fun c => c ≠ slash))).map (fun names => name :: names))
      else if path = [] then some []
      else (root.child path).map (fun _ => [path])

/-- `dslink_node_get_path`. -/
def getPath (root : Node) (path : CString) : Option (List CString) := getPathLoop (path.length + 1) root path

/-- The node `dslink_node_get_path` finds. -/
def getNode (root : Node) (path : CString) : Option Node := (root.getPath path).bind root.find

end Node

/-- The path of a child, as `dslink_node_create` makes it. -/
def childPath (path name : CString) : CString := path ++ slash :: name

/-! ## Streams and the state -/

/-- `StreamType`, the two kinds a responder opens. -/
inductive StreamType
  | list | invocation
  deriving DecidableEq, Repr

/-- `Stream`. The path is a string of the heap. -/
structure Stream where
  type : StreamType
  path : Nat

/-- An entry of `list_subs`: the key is a string of the heap that goes with the entry. -/
structure ListSub where
  key : Nat
  rid : Nat

/-- An entry of `value_path_subs`: the key is a counted string. -/
structure PathSub where
  key : Nat
  sid : Nat

/-- What is sent: a `closed`, the rows of rid 0, the rows of a stream. -/
inductive Message
  | closed (rid : Option Json)
  | values (rows : List Json)
  | stream (rid : Option Json) (rows : List Json)

/-- `Responder`, with what was sent so far. -/
structure State where
  superRoot : Node
  /-- The strings of stream paths. -/
  str : Heap CString
  openStreams : AssocMap Nat Stream
  listSubs : AssocMap CString ListSub
  /-- The strings of subscribed paths. -/
  pathRef : Heap (Ref CString)
  valuePathSubs : AssocMap CString PathSub
  /-- The value is a counted string. -/
  valueSidSubs : AssocMap Nat Nat
  sent : List Message

/-- `dslink_init_responder`. -/
def init : State :=
  ⟨.mk ⟨[], [slash], cstr "node", none, none, none, false, false⟩ [], .empty, .empty, .empty, .empty, .empty, .empty, []⟩

/-- `(uint32_t) json_integer_value`, of NULL too. -/
def u32 (j : Option Json) : Nat := (j.map (fun j => toU32 j.integerValue)).getD 0

namespace State

/-- A message goes out. -/
def send (σ : State) (m : Message) : State := { σ with sent := σ.sent ++ [m] }

/-! ## `list_response.c` -/

/-- The deleter of a stream: `free` for a list stream, whose path belongs to `list_subs`, else `free_stream`. -/
def freeStream (σ : State) (stream : Stream) : Option State :=
  match stream.type with
  | .list => some σ
  | .invocation => (σ.str.get stream.path).map (fun _ => { σ with str := σ.str.free stream.path })

/-- `dslink_map_set` on `open_streams`. -/
def setStream (σ : State) (rid : Nat) (stream : Stream) : Option State := do
  let σ' ← (σ.openStreams.get rid).elim (some σ) σ.freeStream
  pure { σ' with openStreams := σ'.openStreams.set rid stream }

/-- `dslink_map_remove` on `open_streams`. -/
def removeStream (σ : State) (rid : Nat) : Option State :=
  (σ.openStreams.get rid).elim (some σ)
    (fun stream => State.freeStream { σ with openStreams := σ.openStreams.erase rid } stream)

/-- The string of a key of `list_subs` is freed. -/
def freeKey (σ : State) (sub : ListSub) : Option State :=
  (σ.str.get sub.key).map (fun _ => { σ with str := σ.str.free sub.key })

/-- `dslink_map_set` on `list_subs`: the new key takes the place of the old one, which is freed. -/
def setListSub (σ : State) (path : CString) (sub : ListSub) : Option State := do
  let σ' ← (σ.listSubs.get path).elim (some σ) σ.freeKey
  pure { σ' with listSubs := σ'.listSubs.set path sub }

/-- `dslink_map_remove` on `list_subs`. -/
def removeListSub (σ : State) (path : CString) : Option State :=
  (σ.listSubs.get path).elim (some σ)
    (fun sub => State.freeKey { σ with listSubs := σ.listSubs.erase path } sub)

end State

/-- The row of a name that is gone. -/
def removeRow (name : CString) : Json :=
  .object [(cstr "name", .string name), (cstr "change", .string (cstr "remove"))]

/-- A row of a name and a value. -/
def nameRow (name : CString) (value : Json) : Json := .array [.string name, value]

/-- `dslink_response_list_append_meta`. -/
def appendMeta (metaData : Option (AssocMap CString Json)) (name : CString) (obj : Json) : Json :=
  ((metaData.bind (fun m => m.get name)).map (fun value => obj.set name value)).getD obj

/-- `dslink_response_list_append_child`, the whole row. -/
def childRow (child : NodeData) : Json :=
  nameRow child.name (appendMeta child.metaData (cstr "$type") (appendMeta child.metaData (cstr "$invokable")
    (appendMeta child.metaData (cstr "$permission") (appendMeta child.metaData (cstr "$name")
      (.object [(cstr "$is", .string child.profile)])))))

/-- The rows of `dslink_response_list`: the profile, the metadata without what starts with `$$$`, the children. -/
def listRows (node : Node) : List Json :=
  nameRow (cstr "$is") (.string node.data.profile) ::
    (((node.data.metaData.map AssocMap.entries).getD []).filter (fun e => e.1.take 3 ≠ cstr "$$$")).map
      (fun e => nameRow e.1 e.2) ++
    node.children.map (fun c => childRow c.2.data)

namespace State

/-- `dslink_response_list`. -/
def responseList (σ : State) (rid : Option Json) (node : Node) : Option State := do
  let path := σ.str.next
  let σ := { σ with str := σ.str.alloc node.data.path }
  let σ ← σ.setStream (u32 rid) ⟨.list, path⟩
  let σ ← σ.setListSub node.data.path ⟨path, u32 rid⟩
  pure (σ.send (.stream rid (listRows node)))

/-! ## `sub_response.c` -/

/-- `dslink_decref` on the string of a subscribed path. -/
def decrefPath (σ : State) (ref : Nat) : Option State := (σ.pathRef.decref ref).map (fun h => { σ with pathRef := h })

/-- `dslink_map_set` on `value_path_subs`. -/
def setPathSub (σ : State) (path : CString) (sub : PathSub) : Option State := do
  let σ ← (σ.valuePathSubs.get path).elim (some σ) (fun old => σ.decrefPath old.key)
  pure { σ with valuePathSubs := σ.valuePathSubs.set path sub }

/-- `dslink_map_remove` on `value_path_subs`. -/
def removePathSub (σ : State) (path : CString) : Option State :=
  (σ.valuePathSubs.get path).elim (some σ)
    (fun old => State.decrefPath { σ with valuePathSubs := σ.valuePathSubs.erase path } old.key)

/-- `dslink_map_set` on `value_sid_subs`. -/
def setSidSub (σ : State) (sid ref : Nat) : Option State := do
  let σ ← (σ.valueSidSubs.get sid).elim (some σ) σ.decrefPath
  pure { σ with valueSidSubs := σ.valueSidSubs.set sid ref }

/-- `dslink_map_remove` on `value_sid_subs`. -/
def removeSidSub (σ : State) (sid : Nat) : Option State :=
  (σ.valueSidSubs.get sid).elim (some σ)
    (fun ref => State.decrefPath { σ with valueSidSubs := σ.valueSidSubs.erase sid } ref)

end State

/-- The row of `dslink_response_send_val`; a value that is NULL is not appended. -/
def valueRow (sid : Nat) (value : Option Json) (ts : CString) : Json :=
  .array (.integer sid :: (value.toList ++ [.string ts]))

namespace State

/-- `dslink_response_send_val`. -/
def sendVal (σ : State) (node : NodeData) (sid : Nat) : State :=
  node.valueTimestamp.elim σ (fun ts => σ.send (.values [valueRow sid node.value ts]))

/-- A path and a sid come into the two maps. -/
def subscribe (σ : State) (path : CString) (sid : Nat) : Option State := do
  let ref := σ.pathRef.next
  let σ ← State.setPathSub { σ with pathRef := σ.pathRef.newRef path } path ⟨ref, sid⟩
  State.setSidSub { σ with pathRef := σ.pathRef.incref ref } sid ref

end State

/-- What one element of `paths` asks for. -/
def subItem (value : Json) : Option (CString × Nat) :=
  ((value.get (cstr "path")).bind Json.stringValue).map (fun path => (path, u32 (value.get (cstr "sid"))))

/-- `json_array_foreach`, over nothing if it is no array. -/
def elems : Option Json → List Json
  | some (.array l) => l
  | _ => []

/-- The elements up to the first one whose `path` is no string; there `dslink_map_set` refuses the missing key and
    the loop ends. -/
def subItems : List Json → List (CString × Nat)
  | [] => []
  | value :: rest => (subItem value).elim [] (fun item => item :: subItems rest)

namespace State

/-- One round of the loop of `dslink_response_sub`. -/
def subRound (σ : State) (item : CString × Nat) : Option State :=
  (σ.subscribe item.1 item.2).map (fun σ =>
    (σ.superRoot.getNode item.1).elim σ (fun node => σ.sendVal node.data item.2))

/-- `dslink_response_sub`. -/
def responseSub (σ : State) (paths rid : Option Json) : Option State :=
  (subItems (elems paths)).foldlM State.subRound (σ.send (.closed rid))

/-- One round of the loop of `dslink_response_unsub`. The reference is given back before the path is read. -/
def unsubRound (σ : State) (value : Json) : Option State :=
  (σ.valueSidSubs.get (u32 (some value))).elim (some σ) (fun ref => do
    let σ ← State.decrefPath { σ with valueSidSubs := σ.valueSidSubs.erase (u32 (some value)) } ref
    let path ← σ.pathRef.deref ref
    σ.removePathSub path)

/-- `dslink_response_unsub`. -/
def responseUnsub (σ : State) (sids rid : Option Json) : Option State :=
  ((elems sids).foldlM State.unsubRound σ).map (fun σ => σ.send (.closed rid))

/-! ## `node.c` -/

/-- The sids whose path is `path`; `none` if one of the paths is gone. -/
def sidsOf (σ : State) (path : CString) : Option (List Nat) :=
  (σ.valueSidSubs.entries.mapM (fun e => (σ.pathRef.deref e.2).map (fun p => (e.1, p)))).map
    (fun l => (l.filter (fun e => e.2 = path)).map Prod.fst)

/-- What `dslink_node_tree_free_basic` does for one node, before the memory of the node is freed. -/
def dropPath (σ : State) (path : CString) : Option State := do
  let σ ← σ.removePathSub path
  -- the loop keeps the last entry it finds
  let sids ← σ.sidsOf path
  let σ ← sids.getLast?.elim (some σ) σ.removeSidSub
  (σ.listSubs.get path).elim (some σ) (fun sub => do
    let σ ← σ.removeListSub path
    σ.removeStream sub.rid)

/-- The end that `dslink_node_add_child`, `dslink_node_tree_free` and `dslink_node_set_meta` share: the rid under
    which the path is listed gets a row. -/
def sendListed (σ : State) (path : CString) (row : Json) : State :=
  (σ.listSubs.get path).elim σ (fun sub => σ.send (.stream (some (.integer sub.rid)) [row]))

/-- `dslink_node_remove`: the node leaves the tree, whoever lists its parent is told, and it is freed with all that
    is below it. -/
def nodeRemove (σ : State) (parent : List CString) (name : CString) : Option State := do
  let p ← σ.superRoot.find parent
  let node ← p.child name
  let σ := { σ with superRoot := σ.superRoot.modifyAt (fun p => Node.mk p.data (AssocMap.eraseIn name p.children)) parent }
  node.paths.foldlM State.dropPath (σ.sendListed p.data.path (removeRow node.data.name))

/-- `dslink_node_create` and `dslink_node_add_child`. -/
def nodeAddChild (σ : State) (parent : List CString) (name profile : CString) (onInvocation onValueSet : Bool) :
    Option State := do
  let p ← σ.superRoot.find parent
  let data : NodeData := ⟨childPath p.data.path name, name, profile, none, none, none, onInvocation, onValueSet⟩
  if (p.child name).isSome then none
  else
    let σ := { σ with superRoot := σ.superRoot.modifyAt (fun p => Node.mk p.data (p.children ++ [(name, Node.mk data [])])) parent }
    pure (σ.sendListed p.data.path (childRow data))

/-- Change what the node itself has. -/
def modData (σ : State) (names : List CString) (f : NodeData → NodeData) : State :=
  { σ with superRoot := σ.superRoot.modifyAt (fun node => Node.mk (f node.data) node.children) names }

end State

/-- The row of `dslink_node_set_meta`. -/
def metaRow (name : CString) : Option Json → Json
  | none => removeRow name
  | some value => nameRow name value

namespace State

/-- `dslink_node_set_meta`. -/
def nodeSetMeta (σ : State) (names : List CString) (name : CString) (value : Option Json) : Option State := do
  let node ← σ.superRoot.find names
  if node.data.metaData.isNone && value.isNone then pure σ
  else
    let m := node.data.metaData.getD .empty
    let σ := σ.modData names (fun data => { data with metaData := some (value.elim (m.erase name) (m.set name)) })
    pure (σ.sendListed node.data.path (metaRow name value))

/-- `dslink_node_update_value_new`. -/
def nodeUpdateValue (σ : State) (names : List CString) (value : Option Json) (ts : CString) : Option State := do
  let node ← σ.superRoot.find names
  let data := { node.data with value := value, valueTimestamp := some ts }
  let σ := σ.modData names (fun _ => data)
  pure ((σ.valuePathSubs.get data.path).elim σ (fun sub => σ.sendVal data sub.sid))

end State

/-! ## Requests -/

/-- The requests of `dslink_request_handle` with what it reads of them. -/
inductive Request
  | list (path : Option CString) (rid : Option Json)
  | subscribe (paths rid : Option Json)
  | unsubscribe (sids rid : Option Json)
  | invoke (path : Option CString) (rid : Option Json)
  | set (path : Option CString) (value : Option Json)
  | close (rid : Option Json)

/-- The `method` of a request. -/
def Request.ofMethod (method : CString) (req : Json) : Option Request :=
  let path := (req.get (cstr "path")).bind Json.stringValue
  let rid := req.get (cstr "rid")
  if method = cstr "list" then some (.list path rid)
  else if method = cstr "subscribe" then some (.subscribe (req.get (cstr "paths")) rid)
  else if method = cstr "unsubscribe" then some (.unsubscribe (req.get (cstr "sids")) rid)
  else if method = cstr "invoke" then some (.invoke path rid)
  else if method = cstr "set" then some (.set path (req.get (cstr "value")))
  else if method = cstr "close" then some (.close rid)
  else none

/-- What a request asks for; `none` without a known method. -/
def Request.ofJson (req : Json) : Option Request :=
  ((req.get (cstr "method")).bind Json.stringValue).bind (fun method => Request.ofMethod method req)

namespace State

/-- `invoke`. `kept` says whether `unused` is 1 after the callback; a stream that is not kept is freed at once. -/
def requestInvoke (σ : State) (path : CString) (rid : Option Json) (kept : Bool) : Option State :=
  match σ.superRoot.getNode path with
  | none => some σ
  | some node =>
    if node.data.onInvocation then
      let stream : Stream := ⟨.invocation, σ.str.next⟩
      let σ := { σ with str := σ.str.alloc node.data.path }
      if kept then σ.setStream (u32 rid) stream else σ.freeStream stream
    else some σ

/-- `set`. The metadata of a node that has none is a NULL that `dslink_map_get` reads. -/
def requestSet (σ : State) (path : CString) (value : Option Json) (ts : CString) : Option State :=
  match σ.superRoot.getPath path with
  | none => some σ
  | some names => do
    let node ← σ.superRoot.find names
    let m ← node.data.metaData
    if ((m.get (cstr "$writable")).bind Json.stringValue).isNone || node.data.onValueSet then pure σ
    else σ.nodeUpdateValue names value ts

/-- What `close` does to `list_subs`. -/
def closeListSub (σ : State) (stream : Stream) (path : CString) : Option State :=
  if stream.type = .list then σ.removeListSub path else some σ

/-- `close`. The path of the stream is read before the entry of `list_subs` goes. -/
def requestClose (σ : State) (rid : Option Json) : Option State :=
  (σ.openStreams.get (u32 rid)).elim (some σ) (fun stream => do
    let σ := { σ with openStreams := σ.openStreams.erase (u32 rid) }
    let path ← σ.str.get stream.path
    let σ ← σ.closeListSub stream path
    σ.freeStream stream)

/-- `dslink_request_handle`. A path that is no string is a NULL that `strcmp` reads. -/
def requestHandle (σ : State) (ts : CString) (kept : Bool) : Request → Option State
  | .list path rid => path.bind (fun path => (σ.superRoot.getNode path).elim (some σ) (σ.responseList rid))
  | .subscribe paths rid => σ.responseSub paths rid
  | .unsubscribe sids rid => σ.responseUnsub sids rid
  | .invoke path rid => path.bind (fun path => σ.requestInvoke path rid kept)
  | .set path value => path.bind (fun path => σ.requestSet path value ts)
  | .close rid => σ.requestClose rid

end State

/-! ## Events -/

/-- What happens to a responder. `ts` is the time, `kept` what the callback of an invoke request makes of its
    stream. -/
inductive Event
  | request (req : Json) (ts : CString) (kept : Bool)
  | addNode (parent : List CString) (name profile : CString) (onInvocation onValueSet : Bool)
  | removeNode (parent : List CString) (name : CString)
  | setMeta (names : List CString) (name : CString) (value : Option Json)
  | updateValue (names : List CString) (value : Option Json) (ts : CString)

/-- One step. It is `none` where the code reads what is gone, or where the application calls it with what it must
    not. -/
def step (σ : State) : Event → Option State
  | .request req ts kept => (Request.ofJson req).elim (some σ) (σ.requestHandle ts kept)
  | .addNode parent name profile onInvocation onValueSet => σ.nodeAddChild parent name profile onInvocation onValueSet
  | .removeNode parent name => σ.nodeRemove parent name
  | .setMeta names name value => σ.nodeSetMeta names name value
  | .updateValue names value ts => σ.nodeUpdateValue names value ts

/-! ## What nodes and values do not change -/

/-- What is kept of subscriptions and streams. -/
def State.tables (σ : State) : Heap CString × AssocMap Nat Stream × AssocMap CString ListSub × Heap (Ref CString) ×
    AssocMap CString PathSub × AssocMap Nat Nat :=
  (σ.str, σ.openStreams, σ.listSubs, σ.pathRef, σ.valuePathSubs, σ.valueSidSubs)

section

variable {σ σ' : State}

theorem sendVal_tables (σ : State) (node : NodeData) (sid : Nat) : (σ.sendVal node sid).tables = σ.tables := by
  unfold State.sendVal
  cases node.valueTimestamp <;> rfl

theorem sendListed_tables (σ : State) (p : CString) (row : Json) : (σ.sendListed p row).tables = σ.tables := by
  unfold State.sendListed
  cases σ.listSubs.get p <;> rfl

theorem nodeUpdateValue_tables {names : List CString} {value : Option Json} {ts : CString}
    (h : σ.nodeUpdateValue names value ts = some σ') : σ'.tables = σ.tables := by
  unfold State.nodeUpdateValue at h
  obtain ⟨node, -, h⟩ := Option.bind_eq_some_iff.mp h
  cases h
  cases hsub : (σ.modData names (fun _ => { node.data with value := value, valueTimestamp := some ts })).valuePathSubs.get
      node.data.path with
  | none => rfl
  | some sub => rfl

theorem requestSet_tables {path : CString} {value : Option Json} {ts : CString}
    (h : σ.requestSet path value ts = some σ') : σ'.tables = σ.tables := by
  unfold State.requestSet at h
  cases hn : σ.superRoot.getPath path with
  | none =>
    rw [hn] at h
    cases h
    rfl
  | some names =>
    rw [hn] at h
    simp only [Option.bind_eq_bind, Option.bind_eq_some_iff] at h
    obtain ⟨node, -, m, -, h⟩ := h
    split at h
    · cases h
      rfl
    · exact nodeUpdateValue_tables h

theorem nodeAddChild_tables {parent : List CString} {name profile : CString} {b b' : Bool}
    (h : σ.nodeAddChild parent name profile b b' = some σ') : σ'.tables = σ.tables := by
  unfold State.nodeAddChild at h
  obtain ⟨p, -, h⟩ := Option.bind_eq_some_iff.mp h
  dsimp only at h
  split at h
  · cases h
  · cases h
    rw [sendListed_tables]
    rfl

theorem nodeSetMeta_tables {names : List CString} {name : CString} {value : Option Json}
    (h : σ.nodeSetMeta names name value = some σ') : σ'.tables = σ.tables := by
  unfold State.nodeSetMeta at h
  obtain ⟨node, -, h⟩ := Option.bind_eq_some_iff.mp h
  dsimp only at h
  split at h
  · cases h
    rfl
  · cases h
    rw [sendListed_tables]
    rfl

end

end DSLink.Responder
