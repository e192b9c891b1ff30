import DSLink.Lib.Run
import DSLink.Broker.Subscription

/-!
# `Broker.Registry` — the tables of list and invoke streams

`stream.c`, `msg_list.c`, `msg_list_remote.c`, `msg_invoke.c`, `query.c` and `remote_dslink.c`, as far as they
keep track of streams: the two tables of a link by rid, the requesters of a list stream, the streams of a node
and the listeners of a query. An `Event` is what a handler does after its access checks, so any path, rid and
order of requests is a run here. What the messages say is left out; a message to a link still needs the link.

The walk of a query over the data tree is an argument of its event, as the list of the `listener_add` calls:
the results hold for every pattern and every tree.

`Registry.freed` records the requesters a list stream had when it was freed; no function reads it.
-/

namespace DSLink

namespace Registry

abbrev LinkId := Nat
abbrev ListenerId := Nat

/-- A table of streams by rid. The data of an entry is NULL once `broker_remote_dslink_free` has closed it. -/
abbrev StreamTable := AssocMap Nat (Option StreamId)

/-- The two dispatchers of a node that queries listen to. -/
inductive ListenerKind
  | childAdded | valueUpdate
  deriving DecidableEq

/-- `Listener`. `list` is the dispatcher it is linked into, so a dispatcher is the set of its listeners. -/
structure Listener where
  stream : StreamId
  list : Option (NodeId × ListenerKind)

/-- `child_add_listeners` and `value_update_listeners` of a `ParsedQuery`. -/
structure ParsedQuery where
  listeners : ListenerKind → AssocMap CString ListenerId

/-- What the callbacks of an invoke stream stand for: an invoke that was passed on to a responder, a query, or
    the publish action. -/
inductive InvokeCall
  | remote (responder : LinkId) (responderRid : Nat)
  | query (data : ParsedQuery)
  | publish

/-- `BrokerListStream`. `requesterLinks` compares links by their dsId. -/
structure BrokerListStream where
  node : NodeRef
  remotePath : CString
  responderRid : Nat
  requesterLinks : AssocMap CString (LinkId × Nat)

/-- `BrokerInvokeStream`. -/
structure BrokerInvokeStream where
  requester : LinkId
  requesterRid : Nat
  call : InvokeCall

/-- `BrokerStream` by its `type`. -/
inductive BrokerStream
  | list (st : BrokerListStream)
  | invoke (st : BrokerInvokeStream)

/-- `RemoteDSLink`: its streams. A locked map ignores removals. -/
structure RemoteDSLink where
  dsId : Option CString
  node : DownId
  requesterStreams : StreamTable
  responderStreams : StreamTable
  requesterLocked : Bool
  responderLocked : Bool

/-- `BrokerNode` of type `REGULAR_NODE`: its list stream. -/
structure BrokerNode where
  path : CString
  listStream : Option StreamId

/-- `DownstreamNode`: its list streams by remote path. -/
structure DownstreamNode where
  link : Option LinkId
  rid : Nat
  listStreams : AssocMap CString StreamId

end Registry

/-- Links, nodes, streams and listeners of the broker. -/
structure Registry where
  link : Heap Registry.RemoteDSLink
  stream : Heap Registry.BrokerStream
  node : Heap Registry.BrokerNode
  dnode : Heap Registry.DownstreamNode
  listener : Heap Registry.Listener
  freed : List (List (CString × Registry.LinkId × Nat))

namespace Registry

/-- The broker before its first node and link. -/
def empty : Registry := ⟨.empty, .empty, .empty, .empty, .empty, []⟩

def modLink (σ : Registry) (L : LinkId) (f : RemoteDSLink → RemoteDSLink) : Registry :=
  { σ with link := σ.link.modify L f }

def modNode (σ : Registry) (n : NodeId) (f : BrokerNode → BrokerNode) : Registry :=
  { σ with node := σ.node.modify n f }

def modDnode (σ : Registry) (d : DownId) (f : DownstreamNode → DownstreamNode) : Registry :=
  { σ with dnode := σ.dnode.modify d f }

def setStream (σ : Registry) (s : StreamId) (st : BrokerStream) : Registry :=
  { σ with stream := σ.stream.put s st }

/-- The list stream at `s`. -/
def listStream (σ : Registry) (s : StreamId) : Option BrokerListStream :=
  match σ.stream.get s with
  | some (.list st) => some st
  | _ => none

/-- The invoke stream at `s`. -/
def invokeStream (σ : Registry) (s : StreamId) : Option BrokerInvokeStream :=
  match σ.stream.get s with
  | some (.invoke st) => some st
  | _ => none

/-! ## Tables -/

/-- `dslink_map_remove(&link->requester_streams, &rid)`. -/
def removeRequester (σ : Registry) (L : LinkId) (rid : Nat) : Option Registry := do
  let link ← σ.link.get L
  some (if link.requesterLocked then σ
    else σ.modLink L (fun link => { link with requesterStreams := link.requesterStreams.erase rid }))

/-- `dslink_map_remove(&link->responder_streams, &rid)`. -/
def removeResponder (σ : Registry) (L : LinkId) (rid : Nat) : Option Registry := do
  let link ← σ.link.get L
  some (if link.responderLocked then σ
    else σ.modLink L (fun link => { link with responderStreams := link.responderStreams.erase rid }))

/-- `dslink_map_set(&link->requester_streams, rid, stream)`. -/
def setRequester (σ : Registry) (L : LinkId) (rid : Nat) (s : Option StreamId) : Registry :=
  σ.modLink L (fun link => { link with requesterStreams := link.requesterStreams.set rid s })

/-- `dslink_map_set(&link->responder_streams, rid, stream)`. -/
def setResponder (σ : Registry) (L : LinkId) (rid : Nat) (s : Option StreamId) : Registry :=
  σ.modLink L (fun link => { link with responderStreams := link.responderStreams.set rid s })

/-- Where a downstream node has a link, its entry for a list stream is removed. -/
def dropListResponder (σ : Registry) (d : DownId) (rid : Nat) : Option Registry := do
  let node ← σ.dnode.get d
  match node.link with
  | some l => σ.removeResponder l rid
  | none => some σ

/-! ## Closing streams -/

/-- `broker_list_req_closed`. -/
def brokerListReqClosed (σ : Registry) (s : StreamId) (L : LinkId) : Option Registry := do
  let st ← σ.listStream s
  let link ← σ.link.get L
  let links := st.requesterLinks.erase (← link.dsId)
  let σ := σ.setStream s (.list { st with requesterLinks := links })
  if links.size ≠ 0 then some σ
  else
    match st.node with
    | .downstream d => do
      let σ ← σ.dropListResponder d st.responderRid
      some (σ.modDnode d (fun node => { node with listStreams := node.listStreams.erase st.remotePath }))
    | .regular n => do
      let _ ← σ.node.get n
      some (σ.modNode n (fun node => { node with listStream := none }))

/-- The part of `broker_stream_free` that takes the stream off its responder. -/
def dropResponder (σ : Registry) : BrokerStream → Option Registry
  | .list st =>
    match st.node with
    | .downstream d => σ.dropListResponder d st.responderRid
    | .regular n => (σ.node.get n).map (fun _ => σ)
  | .invoke st =>
    match st.call with
    | .remote responder rid => σ.removeResponder responder rid
    | _ => some σ

/-- `broker_stream_free`. -/
def brokerStreamFree (σ : Registry) (s : StreamId) : Option Registry := do
  let stream ← σ.stream.get s
  match stream with
  | .list st => do
    let σ ← st.requesterLinks.values.foldlM (fun σ p => σ.removeRequester p.1 p.2) σ
    let σ ← σ.dropResponder stream
    some { σ with stream := σ.stream.free s, freed := st.requesterLinks.entries :: σ.freed }
  | .invoke st => do
    let σ ← σ.removeRequester st.requester st.requesterRid
    let σ ← σ.dropResponder stream
    some { σ with stream := σ.stream.free s }

/-- `listener_remove` with the free after it. -/
def freeListener (σ : Registry) (id : ListenerId) : Option Registry :=
  (σ.listener.get id).map (fun _ => { σ with listener := σ.listener.free id })

/-- `query_destroy`. -/
def queryDestroy (σ : Registry) (data : ParsedQuery) : Option Registry := do
  let σ ← (data.listeners .childAdded).values.foldlM freeListener σ
  (data.listeners .valueUpdate).values.foldlM freeListener σ

/-- `stream->req_close_cb(stream, link)`, where it is set. `remote_invoke_req_closed` only sends. -/
def reqCloseCb (σ : Registry) (s : StreamId) (L : LinkId) : Option Registry := do
  match ← σ.stream.get s with
  | .list _ => σ.brokerListReqClosed s L
  | .invoke st =>
    match st.call with
    | .remote responder _ => (σ.link.get responder).map (fun _ => σ)
    | .query data => σ.queryDestroy data
    | .publish => some σ

/-- `requester_stream_closed`. -/
def requesterStreamClosed (σ : Registry) (s : StreamId) (L : LinkId) : Option Registry := do
  let σ ← σ.reqCloseCb s L
  match ← σ.stream.get s with
  | .list st => if 0 < st.requesterLinks.size then some σ else σ.brokerStreamFree s
  | .invoke _ => σ.brokerStreamFree s

/-- `responder_stream_closed`: only an invoke that was passed on has a `resp_close_cb`, and it returns 1. -/
def responderStreamClosed (σ : Registry) (s : StreamId) : Option Registry := do
  match ← σ.stream.get s with
  | .list _ => some σ
  | .invoke st =>
    match st.call with
    | .remote _ _ => do
      let _ ← σ.link.get st.requester
      σ.brokerStreamFree s
    | _ => some σ

/-! ## Links come and go -/

/-- One round of the first loop of `broker_remote_dslink_free`. -/
def closeRequesterEntry (L : LinkId) (σ : Registry) (entry : Nat × Option StreamId) : Option Registry := do
  let σ ← σ.requesterStreamClosed (← entry.2) L
  some (σ.setRequester L entry.1 none)

/-- One round of the second loop. -/
def closeResponderEntry (L : LinkId) (σ : Registry) (entry : Nat × Option StreamId) : Option Registry := do
  let σ ← σ.responderStreamClosed (← entry.2)
  some (σ.setResponder L entry.1 none)

/-- `broker_remote_dslink_free`. -/
def brokerRemoteDslinkFree (σ : Registry) (L : LinkId) : Option Registry := do
  let link ← σ.link.get L
  let σ := σ.modLink L (fun link => { link with requesterLocked := true })
  let σ ← link.requesterStreams.entries.foldlM (closeRequesterEntry L) σ
  let link ← σ.link.get L
  let σ := σ.modLink L (fun link => { link with responderLocked := true })
  let σ ← link.responderStreams.entries.foldlM (closeResponderEntry L) σ
  some { σ with link := σ.link.free L }

/-- `broker_close_link`. -/
def brokerCloseLink (σ : Registry) (L : LinkId) : Option Registry := do
  let link ← σ.link.get L
  let σ ← σ.brokerRemoteDslinkFree L
  some (σ.modDnode link.node (fun node => { node with link := none }))

/-- `broker_stream_list_connect`. -/
def brokerStreamListConnect (d : DownId) (σ : Registry) (s : StreamId) : Option Registry := do
  let node ← σ.dnode.get d
  let rid := Broker.incrRid node.rid
  let L ← node.link
  let σ := σ.modDnode d (fun node => { node with rid := rid })
  let st ← σ.listStream s
  let σ := σ.setStream s (.list { st with responderRid := rid })
  some (σ.setResponder L rid (some s))

/-- `broker_dslink_connect` with a new link. -/
def brokerDslinkConnect (σ : Registry) (d : DownId) (dsId : Option CString) : Option Registry := do
  let node ← σ.dnode.get d
  let L := σ.link.next
  let σ := { σ with link := σ.link.alloc ⟨dsId, d, .empty, .empty, false, false⟩ }
  let σ := σ.modDnode d (fun node => { node with link := some L })
  node.listStreams.values.foldlM (brokerStreamListConnect d) σ

/-! ## Requests -/

/-- The rid under which the link already listed the stream, if any, is given up. -/
def dropOldRid (σ : Registry) (L : LinkId) : Option (LinkId × Nat) → Option Registry
  | some (_, oldRid) => σ.removeRequester L oldRid
  | none => some σ

/-- `broker_add_requester_list_stream`. -/
def brokerAddRequesterListStream (σ : Registry) (L : LinkId) (s : StreamId) (rid : Nat) : Option Registry := do
  let link ← σ.link.get L
  let dsId ← link.dsId
  let st ← σ.listStream s
  let σ ← σ.dropOldRid L (st.requesterLinks.get dsId)
  let links := (st.requesterLinks.erase dsId).set dsId (L, rid)
  some ((σ.setStream s (.list { st with requesterLinks := links })).setRequester L rid (some s))

/-- `broker_list_self`. -/
def brokerListSelf (σ : Registry) (L : LinkId) (n : NodeId) (rid : Nat) : Option Registry := do
  let node ← σ.node.get n
  match node.listStream with
  | some s => σ.brokerAddRequesterListStream L s rid
  | none =>
    let s := σ.stream.next
    let σ := { σ with stream := σ.stream.alloc (.list ⟨.regular n, [], 0, .empty⟩) }
    let σ := σ.modNode n (fun node => { node with listStream := some s })
    σ.brokerAddRequesterListStream L s rid

/-- `init_remote_list_stream`. -/
def initRemoteListStream (σ : Registry) (d : DownId) (path : CString) (L : LinkId) (reqRid respRid : Nat) :
    Option Registry :=
  let s := σ.stream.next
  let σ := { σ with stream := σ.stream.alloc (.list ⟨.downstream d, path, respRid, .empty⟩) }
  let σ := σ.modDnode d (fun node => { node with listStreams := node.listStreams.set path s })
  σ.brokerAddRequesterListStream L s reqRid

/-- `broker_list_dslink`. -/
def brokerListDslink (σ : Registry) (L : LinkId) (d : DownId) (path : CString) (rid : Nat) : Option Registry := do
  let node ← σ.dnode.get d
  match node.listStreams.get path, node.link with
  | some s, _ => σ.brokerAddRequesterListStream L s rid
  | none, some l => do
    let respRid := Broker.incrRid node.rid
    let s := σ.stream.next
    let σ := σ.modDnode d (fun node => { node with rid := respRid })
    let σ ← σ.initRemoteListStream d path L rid respRid
    some (σ.setResponder l respRid (some s))
  | none, none => σ.initRemoteListStream d path L rid 0

/-- `dslink_map_remove_get(&link->requester_streams, &rid)`, with the stream it finds. -/
def takeRequester (σ : Registry) (L : LinkId) (rid : Nat) : Option (Registry × Option (Option StreamId)) := do
  let link ← σ.link.get L
  if link.requesterLocked then some (σ, none)
  else
    some (σ.modLink L (fun link => { link with requesterStreams := link.requesterStreams.erase rid }),
      link.requesterStreams.get rid)

/-- A stream that the rid of an invoke request already had. It is freed whoever else still uses it. -/
def closeOld (σ : Registry) (L : LinkId) : Option (Option StreamId) → Option Registry
  | some old => do
    let s ← old
    let σ ← σ.reqCloseCb s L
    σ.brokerStreamFree s
  | none => some σ

/-- `broker_msg_handle_invoke` for a downstream node. -/
def brokerMsgHandleInvoke (σ : Registry) (L : LinkId) (d : DownId) (rid : Nat) : Option Registry := do
  let node ← σ.dnode.get d
  let respRid := Broker.incrRid node.rid
  let σ := σ.modDnode d (fun node => { node with rid := respRid })
  match node.link with
  | none => some σ
  | some l => do
    let s := σ.stream.next
    let σ := { σ with stream := σ.stream.alloc (.invoke ⟨L, rid, .remote l respRid⟩) }
    let _ ← σ.link.get l
    let σ := σ.setResponder l respRid (some s)
    let (σ, old) ← σ.takeRequester L rid
    let σ ← σ.closeOld L old
    some (σ.setRequester L rid (some s))

/-- `listener_add` for a query, with the entry that replaces an older one of the same path. -/
def addListener (s : StreamId) (σ : Registry) (visit : NodeId × ListenerKind) : Option Registry := do
  let node ← σ.node.get visit.1
  let st ← σ.invokeStream s
  match st.call with
  | .query data =>
    let id := σ.listener.next
    let listeners := fun kind =>
      if kind = visit.2 then (data.listeners kind).set node.path id else data.listeners kind
    some { σ.setStream s (.invoke { st with call := .query ⟨listeners⟩ }) with
      listener := σ.listener.alloc ⟨s, some visit⟩ }
  | _ => none

/-- `query_invoke` once the query is parsed. -/
def queryInvoke (σ : Registry) (L : LinkId) (rid : Nat) (visits : List (NodeId × ListenerKind)) :
    Option Registry := do
  let s := σ.stream.next
  let σ := { σ with stream := σ.stream.alloc (.invoke ⟨L, rid, .query ⟨fun _ => .empty⟩⟩) }
  let σ := σ.setRequester L rid (some s)
  visits.foldlM (addListener s) σ

/-- `query_child_added`, called for one listener of a node that gets a child. -/
def queryChildAdded (σ : Registry) (id : ListenerId) (visits : List (NodeId × ListenerKind)) : Option Registry := do
  let listener ← σ.listener.get id
  match listener.list with
  | some (_, .childAdded) => visits.foldlM (addListener listener.stream) σ
  | _ => none

/-- `on_publish_invoked`. -/
def onPublishInvoked (σ : Registry) (L : LinkId) (rid : Nat) : Registry :=
  let s := σ.stream.next
  { σ with stream := σ.stream.alloc (.invoke ⟨L, rid, .publish⟩) }.setRequester L rid (some s)

/-- `broker_msg_handle_close`. -/
def brokerMsgHandleClose (σ : Registry) (L : LinkId) (rid : Nat) : Option Registry := do
  let (σ, old) ← σ.takeRequester L rid
  match old with
  | some s => do σ.requesterStreamClosed (← s) L
  | none => some σ

/-- `broker_handle_resp` for a rid other than 0. A response to a list request changes its cache only. -/
def brokerHandleResp (σ : Registry) (L : LinkId) (rid : Nat) (closed : Bool) : Option Registry := do
  let link ← σ.link.get L
  match link.responderStreams.get rid with
  | none => some σ
  | some s => do
    match ← σ.stream.get (← s) with
    | .list _ => some σ
    | .invoke st => do
      let _ ← σ.link.get st.requester
      if closed then σ.brokerStreamFree (← s) else some σ

/-! ## Nodes go -/

/-- `listener_remove_all` on the dispatchers of a node: its listeners stay allocated. -/
def removeListeners (σ : Registry) (n : NodeId) : Registry :=
  { σ with listener := ⟨σ.listener.next,
      fun id => (σ.listener.get id).map (fun listener =>
        if listener.list = some (n, .childAdded) ∨ listener.list = some (n, .valueUpdate) then
          { listener with list := none } else listener),
      fun id hid => by rw [Heap.get_of_next_le hid, Option.map_none]⟩ }

/-- `broker_stream_free`, which ignores NULL. -/
def freeIfAny (σ : Registry) : Option StreamId → Option Registry
  | some s => σ.brokerStreamFree s
  | none => some σ

/-- `broker_node_free` for one local node. -/
def freeNode (σ : Registry) (n : NodeId) : Option Registry := do
  let node ← σ.node.get n
  let σ := σ.removeListeners n
  let σ ← σ.freeIfAny node.listStream
  some { σ with node := σ.node.free n }

/-- `broker_node_free` for a downstream node, which its callers only do when it has no link. -/
def freeDownstreamNode (σ : Registry) (d : DownId) : Option Registry := do
  let node ← σ.dnode.get d
  if node.link.isSome then none
  else do
    let σ ← node.listStreams.values.foldlM brokerStreamFree σ
    some { σ with dnode := σ.dnode.free d }

/-! ## Runs -/

/-- What the event loop does to the streams. -/
inductive Event
  | addNode (path : CString)
  | addDownstream
  | takeRid (d : DownId)
  | connect (d : DownId) (dsId : Option CString)
  | closeLink (L : LinkId)
  | listSelf (L : LinkId) (n : NodeId) (rid : Nat)
  | listDslink (L : LinkId) (d : DownId) (path : CString) (rid : Nat)
  | invoke (L : LinkId) (d : DownId) (rid : Nat)
  | query (L : LinkId) (rid : Nat) (visits : List (NodeId × ListenerKind))
  | publish (L : LinkId) (rid : Nat)
  | close (L : LinkId) (rid : Nat)
  | response (L : LinkId) (rid : Nat) (closed : Bool)
  | childAdded (id : ListenerId) (visits : List (NodeId × ListenerKind))
  | freeNode (n : NodeId)
  | freeDownstream (d : DownId)

/-- A request needs a link that it comes from. -/
def onLink (σ : Registry) (L : LinkId) (f : Option Registry) : Option Registry :=
  (σ.link.get L).bind (fun _ => f)

/-- One event. A step in which the source uses freed memory has no result. -/
def step (σ : Registry) : Event → Option Registry
  | .addNode path => some { σ with node := σ.node.alloc ⟨path, none⟩ }
  | .addDownstream => some { σ with dnode := σ.dnode.alloc ⟨none, 0, .empty⟩ }
  -- a subscribe or unsubscribe request takes its rid from the same counter
  | .takeRid d => (σ.dnode.get d).map (fun node =>
      σ.modDnode d (fun n => { n with rid := Broker.incrRid node.rid }))
  | .connect d dsId => do
    let node ← σ.dnode.get d
    if node.link.isSome then none else σ.brokerDslinkConnect d dsId
  | .closeLink L => σ.brokerCloseLink L
  | .listSelf L n rid => σ.onLink L (σ.brokerListSelf L n rid)
  | .listDslink L d path rid => σ.onLink L (σ.brokerListDslink L d path rid)
  | .invoke L d rid => σ.onLink L (σ.brokerMsgHandleInvoke L d rid)
  | .query L rid visits => σ.onLink L (σ.queryInvoke L rid visits)
  | .publish L rid => σ.onLink L (some (σ.onPublishInvoked L rid))
  | .close L rid => σ.onLink L (σ.brokerMsgHandleClose L rid)
  | .response L rid closed => σ.onLink L (σ.brokerHandleResp L rid closed)
  | .childAdded id visits => σ.queryChildAdded id visits
  | .freeNode n => σ.freeNode n
  | .freeDownstream d => σ.freeDownstreamNode d

end Registry

end DSLink
