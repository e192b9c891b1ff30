import DSLink.Broker.Node

/-!
# `Broker.Stream` — where a SubRequester is kept: streams and pending lists

The subscription half of `msg/msg_subscribe.c` and `stream.c`, `broker_free_sub_requester` and
`broker_node_free`.
-/

namespace DSLink

variable {J : Type}

namespace Broker

/-! ## Pending lists -/

/-- `broker_subscribe_local_nonexistent`. -/
def brokerSubscribeLocalNonexistent (σ : Broker J) (path : CString) (s : SubId) : Broker J :=
  let subs := (σ.localPendingSub.get path).getD []
  { σ with localPendingSub := σ.localPendingSub.set path (subs ++ [s]) }.modSub s
    (fun req => { req with pendingNode := some (.localPendingSub path) })

/-- `broker_subscribe_disconnected_remote`. -/
def brokerSubscribeDisconnectedRemote (σ : Broker J) (path : CString) (s : SubId) : Option (Broker J) := do
  let len ← brokerDownstreamNodeBaseLen path
  if len = 0 then some σ
  else
    let key := path.take len
    let subs := (σ.remotePendingSub.get key).getD []
    some ({ σ with remotePendingSub := σ.remotePendingSub.set key (subs ++ [s]) }.modSub s
      (fun req => { req with pendingNode := some (.remotePendingSub key) }))

/-- `list_remove_node` on `req->pendingNode`. -/
def unlinkPending (σ : Broker J) (s : SubId) (key : PendingKey) : Broker J :=
  match key with
  | .localPendingSub path =>
    match σ.localPendingSub.get path with
    | none => σ
    | some subs => { σ with localPendingSub := σ.localPendingSub.set path (subs.erase s) }
  | .remotePendingSub path =>
    match σ.remotePendingSub.get path with
    | none => σ
    | some subs => { σ with remotePendingSub := σ.remotePendingSub.set path (subs.erase s) }

/-- `subs_list_free`: the SubRequesters of a list that is freed are no longer linked into it. -/
def subsListFree (σ : Broker J) (subs : List SubId) : Broker J :=
  subs.foldl (fun σ s => σ.modSub s (fun req => { req with pendingNode := none })) σ

/-! ## Attaching to a stream -/

/-- `subreq->stream = st` and the entry for its requester in `st->reqSubs`. -/
def attach (σ : Broker J) (s : SubId) (st : StreamId) (d : DownId) : Broker J :=
  (σ.modSub s (fun req => { req with stream := some st })).modStream st
    (fun stream => { stream with reqSubs := stream.reqSubs.set d s })

/-- The end of both attaching functions: the new subscriber gets the last value. -/
def sendLastValue (cfg : Config) (σ : Broker J) (s : SubId) (st : StreamId) : Option (Broker J) := do
  let stream ← σ.stream.get st
  match stream.lastValue with
  | none => some σ
  | some row => brokerUpdateSubReq cfg σ s row

/-- `broker_stream_sub_init` for the node `n`. -/
def initLocalStream (σ : Broker J) (n : NodeId) : Broker J × StreamId :=
  let stream : BrokerSubStream J := ⟨.regular n, 0, 0, none, none, .empty⟩
  let id := σ.stream.next
  ({ σ with stream := σ.stream.alloc stream }.modNode n (fun node => { node with subStream := some id }), id)

/-- The stream of a local node. A new one starts with the value of the node. -/
def localStream (cfg : Config) (σ : Broker J) (n : NodeId) (node : BrokerNode J) (now : J) :
    Option (Broker J × StreamId) :=
  match node.subStream, node.value with
  | some st, _ => some (σ, st)
  | none, none => some (σ.initLocalStream n)
  | none, some value =>
    let (σ, st) := σ.initLocalStream n
    (brokerUpdateSubStreamValue cfg σ st value none now).map (fun σ => (σ, st))

/-- `broker_handle_local_subscribe`. -/
def brokerHandleLocalSubscribe (cfg : Config) (σ : Broker J) (n : NodeId) (s : SubId) (now : J) :
    Option (Broker J) := do
  let node ← σ.node.get n
  let req ← σ.sub.get s
  let (σ, st) ← σ.localStream cfg n node now
  sendLastValue cfg (σ.attach s st req.reqNode) s st

/-- `broker_stream_sub_init` for the path `respPath` of the link of `d`. -/
def initRemoteStream (σ : Broker J) (d : DownId) (node : DownstreamNode J) (respPath : CString) :
    Broker J × StreamId :=
  let sid := incrSid node.sid
  -- 0xFF is no qos, so that the first `broker_update_stream_qos` sends a request
  let stream : BrokerSubStream J := ⟨.downstream d, sid.2, 255, some respPath, none, .empty⟩
  let id := σ.stream.next
  ({ σ with stream := σ.stream.alloc stream }.modDnode d (fun node =>
    { node with
      sid := sid.1
      respSubStreams := node.respSubStreams.set respPath id
      respSubSids := node.respSubSids.set sid.2 id }), id)

/-- The stream for the path `respPath` of the link of `d`. -/
def remoteStream (σ : Broker J) (d : DownId) (node : DownstreamNode J) (respPath : CString) :
    Broker J × StreamId :=
  match node.respSubStreams.get respPath with
  | some st => (σ, st)
  | none => σ.initRemoteStream d node respPath

/-- `broker_subscribe_remote`. -/
def brokerSubscribeRemote (cfg : Config) (σ : Broker J) (d : DownId) (s : SubId) (respPath : CString) :
    Option (Broker J) := do
  let node ← σ.dnode.get d
  let req ← σ.sub.get s
  let (σ, st) := σ.remoteStream d node respPath
  let σ ← brokerUpdateStreamQos (σ.attach s st req.reqNode) (some st)
  sendLastValue cfg σ s st

/-- The end of `broker_add_new_subscription`: `respNode` is what the path of `s` was resolved to. -/
def placeSub (cfg : Config) (σ : Broker J) (s : SubId) (path : CString)
    (respNode : Option (NodeRef × CString)) (now : J) : Option (Broker J) :=
  match respNode with
  | none =>
    if startsWith path (cstr "/downstream/") ∨ startsWith path (cstr "/upstream/") then
      σ.brokerSubscribeDisconnectedRemote path s
    else some (σ.brokerSubscribeLocalNonexistent path s)
  | some (.regular n, _) => brokerHandleLocalSubscribe cfg σ n s now
  | some (.downstream d, out) => brokerSubscribeRemote cfg σ d s out

/-- `broker_add_new_subscription`. -/
def brokerAddNewSubscription (cfg : Config) (σ : Broker J) (s : SubId) (now : J) : Option (Broker J) := do
  let req ← σ.sub.get s
  let respNode ← σ.brokerNodeGet req.path
  let σ := σ.modDnode req.reqNode (fun node =>
    { node with
      reqSubPaths := node.reqSubPaths.set req.path s
      reqSubSids := node.reqSubSids.set req.reqSid s })
  σ.placeSub cfg s req.path respNode now

/-! ## Freeing a stream, a SubRequester, a node -/

/-- The loop of `broker_stream_free` over `reqSubs` of a remote stream. -/
def detachRemote (σ : Broker J) : List SubId → Option (Broker J)
  | [] => some σ
  | s :: rest => do
    let req ← σ.sub.get s
    let σ := σ.modSub s (fun req => { req with stream := none })
    let σ ← σ.brokerSubscribeDisconnectedRemote req.path s
    detachRemote σ rest

/-- The loop of `broker_stream_free` over `reqSubs` of a local stream. -/
def detachLocal (σ : Broker J) : List SubId → Option (Broker J)
  | [] => some σ
  | s :: rest => do
    let req ← σ.sub.get s
    let σ := σ.modSub s (fun req => { req with stream := none })
    detachLocal (σ.brokerSubscribeLocalNonexistent req.path s) rest

/-- `broker_msg_send_unsubscribe`. -/
def brokerMsgSendUnsubscribe (σ : Broker J) (d : DownId) (respSid : Nat) : Option (Broker J) := do
  let node ← σ.dnode.get d
  if node.link.isNone then some σ
  else
    let rid := incrRid node.rid
    let node ← { node with rid := rid }.wsSend (.unsubscribe rid respSid)
    some (σ.modDnode d (fun _ => node))

/-- `broker_stream_free` on a `BrokerSubStream`. -/
def brokerStreamFree (σ : Broker J) (st : StreamId) : Option (Broker J) := do
  let stream ← σ.stream.get st
  match stream.respNode with
  | .downstream d => do
    let _ ← σ.dnode.get d
    let σ ← detachRemote σ stream.reqSubs.values
    let σ ← brokerMsgSendUnsubscribe σ d stream.respSid
    let σ := σ.modDnode d (fun node =>
      { node with
        respSubStreams := node.respSubStreams.erase (stream.remotePath.getD [])
        respSubSids := node.respSubSids.erase stream.respSid })
    some { σ with stream := σ.stream.free st }
  | .regular n => do
    let _ ← σ.node.get n
    let σ ← detachLocal σ stream.reqSubs.values
    let σ := σ.modNode n (fun node => { node with subStream := none })
    some { σ with stream := σ.stream.free st }

/-- The first two blocks of `broker_free_sub_requester`: out of the two indexes. -/
def dropIndexes (σ : Broker J) (req : SubRequester J) : Broker J :=
  σ.modDnode req.reqNode (fun node =>
    { node with
      reqSubPaths := node.reqSubPaths.erase req.path
      reqSubSids := if req.reqSid ≠ noSid then node.reqSubSids.erase req.reqSid else node.reqSubSids })

/-- The `req->pendingNode` block of `broker_free_sub_requester`. -/
def dropPending (σ : Broker J) (s : SubId) (req : SubRequester J) : Broker J :=
  match req.pendingNode with
  | none => σ
  | some key => (σ.unlinkPending s key).modSub s (fun req => { req with pendingNode := none })

/-- The `req->stream` block of `broker_free_sub_requester`. -/
def leaveStream (σ : Broker J) (req : SubRequester J) : Option (Broker J) := do
  match req.stream with
  | none => some σ
  | some st =>
    let stream ← σ.stream.get st
    let reqSubs := stream.reqSubs.erase req.reqNode
    let σ := σ.modStream st (fun stream => { stream with reqSubs := reqSubs })
    if reqSubs.size = 0 then brokerStreamFree σ st else some σ

/-- The `req->qos > 2` block of `broker_free_sub_requester`: the stored queue is deleted under its keys and
    once more under the unescaped paths. -/
def dropStored (σ : Broker J) (s : SubId) (req : SubRequester J) : Option (Broker J) :=
  if 2 < req.qos then do
    let node ← σ.dnode.get req.reqNode
    let σ ← serializeQosQueue σ s true
    some { σ with storage := σ.storage.erase (node.path, req.path) }
  else some σ

/-- The `req->qosQueue` block of `broker_free_sub_requester`. Clearing the queue writes it again. -/
def dropQosQueue (σ : Broker J) (s : SubId) (req : SubRequester J) : Option (Broker J) :=
  if req.qosQueue.isSome then clearQosQueue σ s true else some σ

/-- The `req->messageQueue` block of `broker_free_sub_requester`: the vector is dereferenced unchecked. -/
def purgePendingAcks (σ : Broker J) (s : SubId) : Option (Broker J) := do
  let req ← σ.sub.get s
  match req.messageQueue with
  | none => some σ
  | some _ =>
    let node ← σ.dnode.get req.reqNode
    let vec ← node.pendingAcks
    let vec := vec.eraseIf ⟨s, 0, 0⟩ cmpPackSubs
    let σ := σ.modDnode req.reqNode (fun node => { node with pendingAcks := some vec })
    some (σ.modSub s (fun req => { req with messageOutputQueueCount := 0, messageQueue := none }))

/-- `broker_free_sub_requester` up to the purge of `pendingAcks`. -/
def releaseSub (σ : Broker J) (s : SubId) : Option (Broker J) := do
  let req ← σ.sub.get s
  let _ ← σ.dnode.get req.reqNode
  let σ ← ((σ.dropIndexes req).dropPending s req).leaveStream req
  let σ ← σ.dropStored s req
  σ.dropQosQueue s req

/-- `broker_free_sub_requester`. -/
def brokerFreeSubRequester (σ : Broker J) (s : SubId) : Option (Broker J) := do
  let σ ← σ.releaseSub s
  let σ ← σ.purgePendingAcks s
  some { σ with sub := σ.sub.free s }

/-- `broker_stream_free` on what may be NULL. -/
def freeStreamIfAny (σ : Broker J) (st : Option StreamId) : Option (Broker J) :=
  match st with
  | none => some σ
  | some st => σ.brokerStreamFree st

/-- The end of `broker_node_free`: out of the children of the parent. -/
def leaveParent (σ : Broker J) (parent : Option NodeId) (name : CString) : Option (Broker J) :=
  match parent with
  | none => some σ
  | some p => (σ.node.get p).map (fun _ =>
      σ.modNode p (fun parent => { parent with children := parent.children.erase name }))

/-- `broker_node_free` on a `DownstreamNode`. Its loops over the two maps free the entry they stand on,
    which is a use after free as soon as there is one. -/
def freeDownstreamNode (σ : Broker J) (d : DownId) : Option (Broker J) := do
  let node ← σ.dnode.get d
  if node.reqSubPaths.size ≠ 0 ∨ node.respSubStreams.size ≠ 0 then none
  else
    let σ ← σ.leaveParent node.parent node.name
    some { σ with dnode := σ.dnode.free d }

/-- The loop of `broker_node_free` over the children: a child is cut off before it is freed. -/
def freeChildren (free : Broker J → NodeRef → Option (Broker J)) (σ : Broker J) :
    List NodeRef → Option (Broker J)
  | [] => some σ
  | .regular n :: rest => do
    let σ ← free (σ.modNode n (fun node => { node with parent := none })) (.regular n)
    freeChildren free σ rest
  | .downstream d :: rest => do
    let σ ← free (σ.modDnode d (fun node => { node with parent := none })) (.downstream d)
    freeChildren free σ rest

/-- `broker_node_free`. The nodes it frees are all different, so a fuel above the number of local nodes ever
    allocated suffices. -/
def brokerNodeFreeLoop : Nat → Broker J → NodeRef → Option (Broker J)
  | 0, _, _ => none
  | _ + 1, σ, .downstream d => σ.freeDownstreamNode d
  | fuel + 1, σ, .regular n => do
    let node ← σ.node.get n
    let σ ← freeChildren (brokerNodeFreeLoop fuel) σ node.children.values
    let σ ← σ.freeStreamIfAny node.subStream
    let σ ← σ.leaveParent node.parent node.name
    some { σ with node := σ.node.free n }

/-- `broker_node_free`. -/
def brokerNodeFree (σ : Broker J) (ref : NodeRef) : Option (Broker J) :=
  brokerNodeFreeLoop (σ.node.next + 2) σ ref

end Broker

end DSLink
