import DSLink.Lib.Run
import DSLink.Broker.Json
import DSLink.Broker.Node

/-!
# `Broker.Query` — queries over the data nodes

`broker/src/query/query.c` with the listener lists of `sdk/src/col/listener.c` and the parts of `node/node.c` that
work on them. A `Listener` is an object of its own: a node links it into one of two lists, and the query that made
it finds it again through two maps that are keyed by the path of the node. The nodes are the data nodes, below
the node `/data`, which is never freed.

## Contents
- `matchQuery`, `parseQuery`.
- `Node`, `Listener`, `QueryStream`, `State`.
- `queryChildAddedStream`, `brokerNodeAdd`, `brokerNodeFree`, `queryDestroy`, `brokerNodeUpdateValue`.
- `Event`, `step`.
-/

namespace DSLink.Query

/-! ## Patterns -/

/-- `MatchResult`. -/
inductive MatchResult
  | notMatch | partialMatch | fullMatch
  deriving DecidableEq, Repr

/-- The inner loop of `match_query`: what is left of the two after their common beginning. -/
def stripCommon : CString → CString → CString × CString
  | a :: path, b :: pattern => if a = b then stripCommon path pattern else (a :: path, b :: pattern)
  | path, pattern => (path, pattern)

/-- The end of `match_query`. -/
def matchEnd (path pattern : CString) : MatchResult :=
  if path = [] then if pattern = [] then .fullMatch else .partialMatch else .notMatch

/-- The loop over `path` after a `'*'` that is followed by `c`. -/
def starLoop (matchRest : CString → MatchResult) (c : Option UInt8) : CString → MatchResult → MatchResult
  | [], best => best
  | a :: path, best =>
    if some a = c then
      if matchRest (a :: path) = .fullMatch then .fullMatch
      else starLoop matchRest c path (if matchRest (a :: path) = .partialMatch then .partialMatch else best)
    else starLoop matchRest c path best

/-- `match_query`. Every round but the last one consumes a character of the pattern, so that a fuel of its
    length suffices. -/
def matchLoop : Nat → CString → CString → MatchResult
  | 0, path, pattern => matchEnd path pattern
  | fuel + 1, path, pattern =>
    if path = [] ∨ pattern = [] then matchEnd path pattern
    else
      let (path, pattern) := stripCommon path pattern
      if pattern.head? = some 63 then
        -- `?` stands for the rest of one name
        matchLoop fuel (path.dropWhile (fun c => c ≠ slash)) pattern.tail
      else if pattern.head? = some 42 then
        if pattern.tail = [] then .fullMatch
        else starLoop (fun path => matchLoop fuel path pattern.tail) pattern.tail.head? path .notMatch
      else matchEnd path pattern

/-- `match_query`. -/
def matchQuery (path pattern : CString) : MatchResult := matchLoop pattern.length path pattern

/-- `parse_query`: the pattern of `list <pattern>|...`. Only as many characters of `list` are compared as stand
    before the first blank. -/
def parseQuery (query : CString) : Option CString :=
  let word := query.takeWhile (fun c => c ≠ 32)
  let rest := query.dropWhile (fun c => c ≠ 32)
  if rest = [] ∨ ¬startsWith (cstr "list") word then none
  else if 124 ∈ rest.tail then some (rest.tail.takeWhile (fun c => c ≠ 124))
  else none

/-! ## The state -/

abbrev ListenerId := Nat

/-- The callbacks of a query: `query_child_added` and `query_value_update`. -/
inductive Callback
  | childAdded | valueUpdate
  deriving DecidableEq

/-- `Listener`. `list` is the node whose list for the callback it is linked into. -/
structure Listener where
  callback : Callback
  data : StreamId
  list : Option NodeId

/-- `BrokerNode`. -/
structure Node where
  path : CString
  name : CString
  parent : Option NodeId
  children : AssocMap CString NodeId
  value : Option Json
  onValueUpdate : List ListenerId
  onChildAdded : List ListenerId

/-- The dispatcher of a callback. -/
def Node.dispatcher (node : Node) : Callback → List ListenerId
  | .childAdded => node.onChildAdded
  | .valueUpdate => node.onValueUpdate

/-- Rewrite the dispatcher of a callback. -/
def Node.setDispatcher (node : Node) (callback : Callback) (l : List ListenerId) : Node :=
  match callback with
  | .childAdded => { node with onChildAdded := l }
  | .valueUpdate => { node with onValueUpdate := l }

/-- The `BrokerInvokeStream` of a query with its `ParsedQuery`. -/
structure QueryStream where
  pattern : CString
  requester : Nat
  requesterRid : Nat
  childAddListeners : AssocMap CString ListenerId
  valueUpdateListeners : AssocMap CString ListenerId

/-- The map of a callback. -/
def QueryStream.listeners (stream : QueryStream) : Callback → AssocMap CString ListenerId
  | .childAdded => stream.childAddListeners
  | .valueUpdate => stream.valueUpdateListeners

/-- `dslink_map_set` on the map of a callback. -/
def QueryStream.remember (stream : QueryStream) (callback : Callback) (path : CString) (l : ListenerId) :
    QueryStream :=
  match callback with
  | .childAdded => { stream with childAddListeners := stream.childAddListeners.set path l }
  | .valueUpdate => { stream with valueUpdateListeners := stream.valueUpdateListeners.set path l }

/-- A row that `query_value_update` sends. -/
structure QueryRow where
  requester : Nat
  rid : Nat
  path : CString
  value : Option Json

/-- The nodes, the listeners, the open queries, and the rows sent so far. -/
structure State where
  node : Heap Node
  listener : Heap Listener
  stream : Heap QueryStream
  sent : List QueryRow

/-- The node `/data`. -/
def dataNode : NodeId := 0

/-- `/data` without children. -/
def init : State :=
  ⟨Heap.empty.alloc ⟨cstr "/data", cstr "data", none, .empty, none, [], []⟩, .empty, .empty, []⟩

namespace State

/-- Rewrite the node at `n`. -/
def modNode (σ : State) (n : NodeId) (f : Node → Node) : State := { σ with node := σ.node.modify n f }

/-- Rewrite the listener at `l`. -/
def modListener (σ : State) (l : ListenerId) (f : Listener → Listener) : State :=
  { σ with listener := σ.listener.modify l f }

/-- Rewrite the stream at `st`. -/
def modStream (σ : State) (st : StreamId) (f : QueryStream → QueryStream) : State :=
  { σ with stream := σ.stream.modify st f }

/-! ## Listening -/

/-- `listener_add` on the dispatcher of the callback, and `dslink_map_set` on its map. -/
def attach (σ : State) (st : StreamId) (n : NodeId) (callback : Callback) : Option State := do
  let node ← σ.node.get n
  let _ ← σ.stream.get st
  let l := σ.listener.next
  let σ := { σ with listener := σ.listener.alloc ⟨callback, st, some n⟩ }
  let σ := σ.modNode n (fun node => node.setDispatcher callback (node.dispatcher callback ++ [l]))
  some (σ.modStream st (fun stream => stream.remember callback node.path l))

/-- `query_child_added_stream`. A child is younger than its parent, so that a fuel above the number of nodes
    ever allocated suffices. -/
def queryChildAddedStream (st : StreamId) : Nat → State → NodeId → Option State
  | 0, _, _ => none
  | fuel + 1, σ, n => do
    let stream ← σ.stream.get st
    let node ← σ.node.get n
    let rslt := matchQuery node.path stream.pattern
    if rslt = .notMatch then some σ
    else do
      let σ ← σ.attach st n .childAdded
      let σ ← node.children.values.foldlM (queryChildAddedStream st fuel) σ
      if rslt = .fullMatch then σ.attach st n .valueUpdate else some σ

/-- `broker_stream_invoke_init` for a query that was parsed. -/
def openStream (σ : State) (requester rid : Nat) (pattern : CString) : State :=
  { σ with stream := σ.stream.alloc ⟨pattern, requester, rid, .empty, .empty⟩ }

/-- `query_invoke` for a query that was parsed. -/
def queryInvoke (σ : State) (requester rid : Nat) (pattern : CString) : Option State :=
  queryChildAddedStream σ.stream.next (σ.node.next + 1) (σ.openStream requester rid pattern) dataNode

/-- `query_child_added`. -/
def queryChildAdded (σ : State) (child : NodeId) (l : ListenerId) : Option State := do
  let listener ← σ.listener.get l
  queryChildAddedStream listener.data (σ.node.next + 1) σ child

/-- `query_value_update`. -/
def queryValueUpdate (n : NodeId) (σ : State) (l : ListenerId) : Option State := do
  let listener ← σ.listener.get l
  let stream ← σ.stream.get listener.data
  let node ← σ.node.get n
  some { σ with sent := σ.sent ++ [⟨stream.requester, stream.requesterRid, node.path, node.value⟩] }

/-- `broker_node_update_value`. -/
def brokerNodeUpdateValue (σ : State) (n : NodeId) (value : Json) : Option State := do
  let node ← σ.node.get n
  node.onValueUpdate.foldlM (queryValueUpdate n) (σ.modNode n (fun node => { node with value := some value }))

/-! ## Adding and freeing nodes -/

/-- `broker_node_create` and the first half of `broker_node_add`: the new node, without a look at the listeners. -/
def linkChild (σ : State) (parent : NodeId) (node : Node) (name : CString) : State :=
  let child : Node := ⟨childPath node.path name, name, some parent, .empty, none, [], []⟩
  let c := σ.node.next
  { σ with node := σ.node.alloc child }.modNode parent (fun node =>
    { node with children := node.children.set name c })

/-- `broker_node_add` with its call of `broker_node_update_child`. A name that is taken is refused, and the node
    that was created for it is freed. -/
def brokerNodeAdd (σ : State) (parent : NodeId) (name : CString) : Option State := do
  let node ← σ.node.get parent
  if (node.children.get name).isSome then some σ
  else node.onChildAdded.foldlM (fun σ' l => σ'.queryChildAdded σ.node.next l) (σ.linkChild parent node name)

/-- `listener_remove_all` on a list: the listeners are out of it, and nobody is told. -/
def listenerRemoveAll (σ : State) (l : List ListenerId) : State :=
  l.foldl (fun σ l => σ.modListener l (fun listener => { listener with list := none })) σ

/-- The end of `broker_node_free`. The children of the parent are updated as well, but no query listens for a
    removed child. -/
def dropNode (σ : State) (n : NodeId) (node : Node) : State :=
  let σ := (σ.listenerRemoveAll node.onValueUpdate).listenerRemoveAll node.onChildAdded
  let σ := node.parent.elim σ (fun parent =>
    σ.modNode parent (fun parent => { parent with children := parent.children.erase node.name }))
  { σ with node := σ.node.free n }

/-- `broker_node_free`. A child is cut off before it is freed. -/
def brokerNodeFree : Nat → State → NodeId → Option State
  | 0, _, _ => none
  | fuel + 1, σ, n => do
    let node ← σ.node.get n
    let σ ← node.children.values.foldlM (fun (σ : State) c => do
      let _ ← σ.node.get c
      brokerNodeFree fuel (σ.modNode c (fun child => { child with parent := none })) c) σ
    some (σ.dropNode n node)

/-! ## Closing a query -/

/-- `listener_remove`: out of the list, if it is in one. -/
def listenerRemove (σ : State) (l : ListenerId) (listener : Listener) : Option State :=
  match listener.list with
  | none => some σ
  | some n => do
    let node ← σ.node.get n
    some ((σ.modNode n (fun _ => node.setDispatcher listener.callback
      ((node.dispatcher listener.callback).erase l))).modListener l (fun listener => { listener with list := none }))

/-- One round of the loops of `query_destroy`. A listener that was freed before is a use after free. -/
def destroyListener (σ : State) (l : ListenerId) : Option State := do
  let listener ← σ.listener.get l
  let σ ← σ.listenerRemove l listener
  some { σ with listener := σ.listener.free l }

/-- `query_destroy` and `broker_stream_free`. -/
def queryDestroy (σ : State) (st : StreamId) : Option State := do
  let stream ← σ.stream.get st
  let σ ← stream.childAddListeners.values.foldlM destroyListener σ
  let σ ← stream.valueUpdateListeners.values.foldlM destroyListener σ
  some { σ with stream := σ.stream.free st }

end State

/-! ## Runs -/

/-- What happens to the data nodes and the queries. `close` is the close request for a query as well as the end
    of its requester's link. -/
inductive Event
  | addNode (parent : NodeId) (name : CString)
  | removeNode (n : NodeId)
  | updateValue (n : NodeId) (value : Json)
  | query (requester rid : Nat) (query : CString)
  | close (st : StreamId)

/-- One callback of the event loop. -/
def step (σ : State) : Event → Option State
  | .addNode parent name => σ.brokerNodeAdd parent name
  | .removeNode n => if n = dataNode then none else σ.brokerNodeFree (σ.node.next + 1) n
  | .updateValue n value => σ.brokerNodeUpdateValue n value
  | .query requester rid query =>
    match parseQuery query with
    | none => some σ
    | some pattern => σ.queryInvoke requester rid pattern
  | .close st => σ.queryDestroy st

/-- A pattern may stop in a name, and what it stands for may go on. -/
example : (matchQuery (cstr "/data/a/b") (cstr "/data/?/b"), matchQuery (cstr "/data") (cstr "/data/*"),
    matchQuery (cstr "/data/ab") (cstr "/data/a"), parseQuery (cstr "list /data/*|x"))
    = (.fullMatch, .partialMatch, .notMatch, some (cstr "/data/*")) := by decide

end DSLink.Query
