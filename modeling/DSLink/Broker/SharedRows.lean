import DSLink.Lib.Run
import DSLink.Broker.Json

/-!
# `Broker.SharedRows` — value rows as the shared objects they are

A value row is one JSON array. The last value of a stream and the queues of all its requesters point to it, and
element 0 is overwritten in place each time the row is sent. Here a row is an object of its own and the queues
hold its address, so that what goes out is what the array holds at that moment. Written out are the functions
of `broker/src/subscription.c` and `msg/msg_subscribe.c` that pass rows on; where a path leads to, the pending
lists and the stored queues are left out.

## Contents
- `State`: the rows and who points to them. `published`, `handed` and `sent` record the past.
- `sendMessage`, `brokerUpdateSubReqQos`, `brokerUpdateSubReq` and their callers.
- `Event`, `step`.
-/

namespace DSLink.SharedRows

/-- The address of a value row. -/
abbrev RowId := Nat

/-- A value row `[sid, value, ts, ...]`. Rows without an element 0 are dropped where they come in. -/
structure ValueRow where
  first : Json
  rest : List Json

/-- `QueuedMessage`: `msgId` is 0 until the row is sent. -/
structure QueuedMessage where
  message : RowId
  msgId : Nat

/-- `SubRequester`. -/
structure SubRequester where
  path : CString
  reqNode : DownId
  stream : Option StreamId
  reqSid : Nat
  qos : Nat
  qosQueue : Option (List RowId)
  messageQueue : Option (Ringbuffer QueuedMessage)
  messageOutputQueueCount : Nat

/-- `BrokerSubStream`. `reqSubs` is keyed by the requester's node. -/
structure BrokerSubStream where
  lastValue : Option RowId
  reqSubs : AssocMap DownId SubId

/-- `DownstreamNode` of a requester. `link` is the message counter of its link. -/
structure DownstreamNode where
  link : Option Nat
  reqSubPaths : AssocMap CString SubId
  reqSubSids : AssocMap Nat SubId
  pendingAcks : Option (Vec PendingAck)

/-- One message as it was serialised: for whom, the `reqSid` of that SubRequester at that moment, and the rows
    with the elements they had. -/
structure Transmission where
  sub : SubId
  reqSid : Nat
  rows : List (RowId × ValueRow)

/-- The rows with everything that points to them. The value and timestamp that row `r` was made with, and the
    stream it was made for, are `published[r]`. `handed` lists the calls of `broker_update_sub_req` with the
    stream the SubRequester was on, `sent` all messages. -/
structure State where
  row : List ValueRow
  sub : Heap SubRequester
  stream : Heap BrokerSubStream
  dnode : Heap DownstreamNode
  published : List (StreamId × List Json)
  handed : List (SubId × Option StreamId × RowId)
  sent : List Transmission

/-- No stream and no requester. -/
def init : State := ⟨[], .empty, .empty, .empty, [], [], []⟩

/-! ## The message queue -/

/-- `addToMessageQueue`. The queue is created on first use. -/
def addToMessageQueue (cfg : Config) (q : Option (Ringbuffer QueuedMessage)) (varray : RowId) :
    Option (Ringbuffer QueuedMessage) :=
  match q with
  | some rb => some (rb.rbPush ⟨varray, 0⟩).1
  | none => (Ringbuffer.rbInit cfg.brokerMaxQosQueueSize).map (fun rb => (rb.rbPush ⟨varray, 0⟩).1)

/-- The loop of `removeFromMessageQueue`. -/
def removeLoop (msgId : Nat) : Nat → Ringbuffer QueuedMessage → Nat → Ringbuffer QueuedMessage × Nat
  | 0, rb, result => (rb, result)
  | fuel + 1, rb, result =>
    match rb.rbFront with
    | none => (rb, result)
    | some m =>
      if m.msgId = 0 ∨ msgId < m.msgId then (rb, result)
      else removeLoop msgId fuel rb.rbPop.1 (result + 1)

/-- `removeFromMessageQueue`, with the number of rows removed. -/
def removeFromMessageQueue (q : Option (Ringbuffer QueuedMessage)) (msgId : Nat) :
    Option (Ringbuffer QueuedMessage) × Nat :=
  match q with
  | none => (none, 0)
  | some rb => (some (removeLoop msgId rb.rbCount rb 0).1, (removeLoop msgId rb.rbCount rb 0).2)

/-- The loop of `broker_clear_messsage_ids`: the new queue and counter. -/
def clearIdsLoop : Nat → Option (Ringbuffer QueuedMessage) → Option (Ringbuffer QueuedMessage) × Nat
  | 0, q => (q, 0)
  | count + 1, q =>
    match q.bind (fun rb => rb.rbAt count) with
    | none => (q, 0)
    | some _ => clearIdsLoop count (q.map (fun rb => rb.modifyAt count (fun m => { m with msgId := 0 })))

/-! ## Pending acks -/

/-- `cmp_pack`. -/
def cmpPack (lhs rhs : PendingAck) : Int :=
  if lhs.msgId = rhs.msgId then 0 else if rhs.msgId < lhs.msgId then 1 else -1

/-- `cmp_pack_subs`. -/
def cmpPackSubs (lhs rhs : PendingAck) : Int := if lhs.subscription = rhs.subscription then 0 else -1

namespace State

/-- Rewrite the SubRequester at `s`. -/
def modSub (σ : State) (s : SubId) (f : SubRequester → SubRequester) : State :=
  { σ with sub := σ.sub.modify s f }

/-- Rewrite the stream at `st`. -/
def modStream (σ : State) (st : StreamId) (f : BrokerSubStream → BrokerSubStream) : State :=
  { σ with stream := σ.stream.modify st f }

/-- Rewrite the requester at `d`. -/
def modDnode (σ : State) (d : DownId) (f : DownstreamNode → DownstreamNode) : State :=
  { σ with dnode := σ.dnode.modify d f }

/-- `json_array_set_new(varray, 0, x)`. -/
def setFirst (σ : State) (r : RowId) (x : Json) : State :=
  { σ with row := σ.row.modify r (fun row => { row with first := x }) }

/-! ## Sending -/

/-- `broker_ws_send_obj` with a value message for `s`: the rows are written out as they are now. -/
def brokerWsSendObj (σ : State) (s : SubId) (updates : List RowId) : Option (State × Nat) := do
  let req ← σ.sub.get s
  let node ← σ.dnode.get req.reqNode
  let msgId ← node.link
  let rows ← updates.mapM (fun r => (σ.row[r]?).map (fun row => (r, row)))
  let id := msgId + 1
  let σ := σ.modDnode req.reqNode (fun node => { node with link := some (if id = 2147483647 then 0 else id) })
  some ({ σ with sent := σ.sent ++ [⟨s, req.reqSid, rows⟩] }, id)

/-- `addPendingAck`. -/
def addPendingAck (σ : State) (s : SubId) (msgId : Nat) : Option State := do
  let req ← σ.sub.get s
  let pack : PendingAck := ⟨s, msgId, σ.sent.length⟩
  let σ := σ.modDnode req.reqNode (fun node =>
    { node with pendingAcks := some ((node.pendingAcks.getD (Vec.init 64)).append pack) })
  some (σ.modSub s (fun req => { req with messageOutputQueueCount := req.messageOutputQueueCount + 1 }))

/-- `sendMessage`, with the number the message got. -/
def sendMessage (σ : State) (s : SubId) (varray : RowId) : Option (State × Nat) := do
  let req ← σ.sub.get s
  let σ := σ.setFirst varray (.integer req.reqSid)
  let (σ, msgId) ← σ.brokerWsSendObj s [varray]
  let σ ← σ.addPendingAck s msgId
  some (σ, msgId)

/-- Store the number of the message through `&m->msg_id`, in the slot `m` was found in. -/
def setMsgId (σ : State) (s : SubId) (idx msgId : Nat) : State :=
  σ.modSub s (fun req =>
    { req with
      messageQueue := req.messageQueue.map (fun rb => rb.modifyAt idx (fun m => { m with msgId := msgId })) })

/-- The loop of `sendQueuedMessages`. -/
def sendQueuedLoop (cfg : Config) (s : SubId) : Nat → State → Option State
  | 0, σ => some σ
  | fuel + 1, σ => do
    let req ← σ.sub.get s
    if req.messageOutputQueueCount < cfg.brokerMaxWsSendQueueSize then
      match req.messageQueue.bind (fun rb => rb.rbAt req.messageOutputQueueCount) with
      | none => some σ
      | some m =>
        if 0 < m.msgId then some σ
        else do
          let (σ, msgId) ← σ.sendMessage s m.message
          sendQueuedLoop cfg s fuel (σ.setMsgId s req.messageOutputQueueCount msgId)
    else some σ

/-- `sendQueuedMessages`. `rb_count` is -1 on NULL, so that the loop is entered and finds no message. -/
def sendQueuedMessages (cfg : Config) (σ : State) (s : SubId) : Option State := do
  let req ← σ.sub.get s
  let node ← σ.dnode.get req.reqNode
  if node.link.isSome ∧ req.reqSid ≠ noSid ∧ (req.messageQueue.map Ringbuffer.rbCount) ≠ some 0 then
    sendQueuedLoop cfg s cfg.brokerMaxWsSendQueueSize σ
  else some σ

/-! ## Acknowledging -/

/-- One round of the loop of `check_subscription_ack`. -/
def ackOne (cfg : Config) (σ : State) (pack : PendingAck) : Option State := do
  let req ← σ.sub.get pack.subscription
  let removed := removeFromMessageQueue req.messageQueue pack.msgId
  let σ := σ.modSub pack.subscription (fun req =>
    { req with
      messageQueue := removed.1
      messageOutputQueueCount := dec32 req.messageOutputQueueCount })
  if removed.2 ≠ 0 then sendQueuedMessages cfg σ pack.subscription else some σ

/-- The loop of `check_subscription_ack`, down from index `n - 1` of the vector of `d`. -/
def ackLoop (cfg : Config) (d : DownId) : Nat → State → Option State
  | 0, σ => some σ
  | idx + 1, σ => do
    let node ← σ.dnode.get d
    let vec ← node.pendingAcks
    let pack ← vec.get idx
    let σ ← ackOne cfg σ pack
    ackLoop cfg d idx σ

/-- `vector_upper_bound` over `cmp_pack`, 0 on a NULL vector. -/
def ackCut (node : DownstreamNode) (ack : Nat) : Nat :=
  (node.pendingAcks.map (fun vec => vec.upperBound ⟨0, ack, 0⟩ cmpPack)).getD 0

/-- `check_subscription_ack` on the link of `d`. -/
def checkSubscriptionAck (cfg : Config) (σ : State) (d : DownId) (ack : Nat) : Option State := do
  let node ← σ.dnode.get d
  let last := ackCut node ack
  let σ ← ackLoop cfg d last σ
  some (σ.modDnode d (fun node => { node with pendingAcks := node.pendingAcks.map (fun v => v.erasePrefix last) }))

/-! ## Handing a row to a SubRequester -/

/-- `clear_qos_queue`. -/
def clearQosQueue (σ : State) (s : SubId) : State :=
  σ.modSub s (fun req => { req with qosQueue := req.qosQueue.map (fun _ => []) })

/-- `broker_update_sub_req_qos`: element 0 of every row of the queue, then the queue as a whole. -/
def brokerUpdateSubReqQos (σ : State) (s : SubId) : Option State := do
  let req ← σ.sub.get s
  let node ← σ.dnode.get req.reqNode
  if node.link.isSome then do
    let rows := req.qosQueue.getD []
    let σ := rows.foldl (fun σ r => σ.setFirst r (.integer req.reqSid)) σ
    let (σ, _) ← σ.brokerWsSendObj s rows
    some (σ.clearQosQueue s)
  else some σ

/-- The branch of `broker_update_sub_req` for a requester that is away: a full queue is destroyed, and the row
    with it. -/
def appendQosQueue (cfg : Config) (σ : State) (s : SubId) (queue : List RowId) (varray : RowId) : State :=
  if cfg.brokerMaxQosQueueSize ≤ queue.length then σ.modSub s (fun req => { req with qosQueue := some [] })
  else σ.modSub s (fun req => { req with qosQueue := some (queue ++ [varray]) })

/-- `broker_update_sub_req`. -/
def brokerUpdateSubReq (cfg : Config) (σ : State) (s : SubId) (varray : RowId) : Option State := do
  let req ← σ.sub.get s
  let node ← σ.dnode.get req.reqNode
  let σ := { σ with handed := σ.handed ++ [(s, req.stream, varray)] }
  if req.qos ≤ 2 then do
    let q ← addToMessageQueue cfg req.messageQueue varray
    sendQueuedMessages cfg (σ.modSub s (fun req => { req with messageQueue := some q })) s
  else if node.link.isSome then (σ.sendMessage s varray).map Prod.fst
  else some (σ.appendQosQueue cfg s (req.qosQueue.getD []) varray)

/-- `broker_update_sub_reqs`. -/
def brokerUpdateSubReqs (cfg : Config) (σ : State) (st : StreamId) : Option State := do
  let stream ← σ.stream.get st
  match stream.lastValue with
  | none => some σ
  | some varray => stream.reqSubs.values.foldlM (fun σ s => brokerUpdateSubReq cfg σ s varray) σ

/-- `broker_update_sub_stream` with a row that has just been parsed. -/
def brokerUpdateSubStream (cfg : Config) (σ : State) (st : StreamId) (varray : ValueRow) : Option State := do
  let _ ← σ.stream.get st
  let r : RowId := σ.row.length
  let σ := { σ with row := σ.row ++ [varray], published := σ.published ++ [(st, varray.rest)] }
  brokerUpdateSubReqs cfg (σ.modStream st (fun stream => { stream with lastValue := some r })) st

/-- `broker_update_sub_stream_value`: a new row with `null` in front; `now` is the clock's text for a missing
    `ts`. -/
def brokerUpdateSubStreamValue (cfg : Config) (σ : State) (st : StreamId) (value : Json) (ts : Option Json)
    (now : Json) : Option State :=
  brokerUpdateSubStream cfg σ st ⟨.null, [value, ts.getD now]⟩

/-- `broker_update_sub_qos`. -/
def brokerUpdateSubQos (σ : State) (s : SubId) (qos : Nat) : State :=
  σ.modSub s (fun req =>
    if req.qos = qos then req
    else
      { req with
        qos := qos
        qosQueue := if 0 < qos ∧ req.qosQueue.isNone then some [] else req.qosQueue })

/-! ## Subscribing -/

/-- The new subscriber of a stream gets the last value. -/
def sendLastValue (cfg : Config) (σ : State) (s : SubId) (st : StreamId) : Option State := do
  let stream ← σ.stream.get st
  match stream.lastValue with
  | none => some σ
  | some varray => brokerUpdateSubReq cfg σ s varray

/-- The end of `broker_handle_local_subscribe` and of `broker_subscribe_remote`: the SubRequester, which is on
    no stream, enters one. -/
def attach (cfg : Config) (σ : State) (s : SubId) (st : StreamId) : Option State := do
  let req ← σ.sub.get s
  let _ ← σ.stream.get st
  if req.stream.isSome then none
  else
    let σ := σ.modSub s (fun req => { req with stream := some st })
    let σ := σ.modStream st (fun stream => { stream with reqSubs := stream.reqSubs.set req.reqNode s })
    σ.sendLastValue cfg s st

/-- The end of the `pathsub` block of `handle_subscribe`. -/
def sendWaiting (cfg : Config) (σ : State) (s : SubId) : Option State := do
  let req ← σ.sub.get s
  if req.qosQueue.getD [] ≠ [] then brokerUpdateSubReqQos σ s
  else if req.qos = 2 then sendQueuedMessages cfg σ s
  else
    match req.stream with
    | none => some σ
    | some st => sendLastValue cfg σ s st

/-- `pathsub->reqSid = sid` with the two changes of the sid index around it. -/
def rekey (σ : State) (d : DownId) (s : SubId) (sid : Nat) : Option State := do
  let req ← σ.sub.get s
  let σ := σ.modDnode d (fun node => { node with reqSubSids := node.reqSubSids.erase req.reqSid })
  let σ := σ.modSub s (fun req => { req with reqSid := sid })
  some (σ.modDnode d (fun node => { node with reqSubSids := node.reqSubSids.set sid s }))

/-- The `pathsub` block of `handle_subscribe`: a known path gets a new sid and qos. -/
def resubscribe (cfg : Config) (σ : State) (d : DownId) (s : SubId) (sid qos : Nat) : Option State := do
  let σ ← σ.rekey d s sid
  (σ.brokerUpdateSubQos s qos).sendWaiting cfg s

/-- `broker_create_sub_requester` and `broker_add_new_subscription`; `target` is the stream the path leads to,
    none while it leads nowhere. -/
def subscribeNew (cfg : Config) (σ : State) (d : DownId) (path : CString) (sid qos : Nat)
    (target : Option StreamId) : Option State := do
  let s := σ.sub.next
  let req : SubRequester := ⟨path, d, none, sid, qos, if 2 < qos then some [] else none, none, 0⟩
  let σ := { σ with sub := σ.sub.alloc req }
  let σ := σ.modDnode d (fun node =>
    { node with reqSubPaths := node.reqSubPaths.set path s, reqSubSids := node.reqSubSids.set sid s })
  match target with
  | none => some σ
  | some st => σ.attach cfg s st

/-! ## Freeing -/

/-- `broker_stream_free`: its subscribers are on no stream afterwards. -/
def brokerStreamFree (σ : State) (st : StreamId) : Option State := do
  let stream ← σ.stream.get st
  let σ ← stream.reqSubs.values.foldlM (fun (σ : State) s => do
    let _ ← σ.sub.get s
    some (σ.modSub s (fun req => { req with stream := none }))) σ
  some { σ with stream := σ.stream.free st }

/-- The first two blocks of `broker_free_sub_requester`: out of the two indexes. -/
def dropIndexes (σ : State) (req : SubRequester) : State :=
  σ.modDnode req.reqNode (fun node =>
    { node with
      reqSubPaths := node.reqSubPaths.erase req.path
      reqSubSids := if req.reqSid ≠ noSid then node.reqSubSids.erase req.reqSid else node.reqSubSids })

/-- The `req->stream` block of `broker_free_sub_requester`. -/
def leaveStream (σ : State) (req : SubRequester) : Option State := do
  match req.stream with
  | none => some σ
  | some st =>
    let stream ← σ.stream.get st
    let reqSubs := stream.reqSubs.erase req.reqNode
    let σ := σ.modStream st (fun stream => { stream with reqSubs := reqSubs })
    if reqSubs.size = 0 then brokerStreamFree σ st else some σ

/-- The `req->messageQueue` block of `broker_free_sub_requester`: the vector is dereferenced unchecked. -/
def purgePendingAcks (σ : State) (s : SubId) (req : SubRequester) : Option State := do
  match req.messageQueue with
  | none => some σ
  | some _ =>
    let node ← σ.dnode.get req.reqNode
    let vec ← node.pendingAcks
    some (σ.modDnode req.reqNode (fun node => { node with pendingAcks := some (vec.eraseIf ⟨s, 0, 0⟩ cmpPackSubs) }))

/-- `broker_free_sub_requester`. -/
def brokerFreeSubRequester (σ : State) (s : SubId) : Option State := do
  let req ← σ.sub.get s
  let σ ← (σ.dropIndexes req).leaveStream req
  let σ ← σ.purgePendingAcks s req
  some { σ with sub := σ.sub.free s }

/-! ## Requests -/

/-- `handle_subscribe` past its checks. -/
def handleSubscribe (cfg : Config) (σ : State) (d : DownId) (path : CString) (sid qos : Nat)
    (target : Option StreamId) : Option State := do
  let node ← σ.dnode.get d
  let idsub := node.reqSubSids.get sid
  let pathsub := node.reqSubPaths.get path
  match idsub, pathsub with
  | some s, some s' =>
    if s = s' then some (σ.brokerUpdateSubQos s qos)
    else do
      let σ ← σ.brokerFreeSubRequester s
      σ.resubscribe cfg d s' sid qos
  | some s, none => do
    let σ ← σ.brokerFreeSubRequester s
    σ.subscribeNew cfg d path sid qos target
  | none, some s' => σ.resubscribe cfg d s' sid qos
  | none, none => σ.subscribeNew cfg d path sid qos target

/-- `handle_unsubscribe`. -/
def handleUnsubscribe (σ : State) (d : DownId) (sid : Nat) : Option State := do
  let node ← σ.dnode.get d
  match node.reqSubSids.get sid with
  | none => some σ
  | some s =>
    (σ.modDnode d (fun node => { node with reqSubSids := node.reqSubSids.erase sid })).brokerFreeSubRequester s

/-! ## Closing a link -/

/-- `broker_clear_messsage_ids`. -/
def brokerClearMesssageIds (σ : State) (s : SubId) : State :=
  σ.modSub s (fun req =>
    { req with
      messageQueue := (clearIdsLoop req.messageOutputQueueCount req.messageQueue).1
      messageOutputQueueCount := (clearIdsLoop req.messageOutputQueueCount req.messageQueue).2 })

/-- The first loop of `broker_remote_dslink_free` over `req_sub_paths`: the SubRequesters below qos 2 are
    collected, the others forget which rows they sent. -/
def collectNonQos (σ : State) : List SubId → Option (State × List SubId)
  | [] => some (σ, [])
  | s :: rest => do
    let req ← σ.sub.get s
    if req.qos ≤ 1 then
      let (σ, subs) ← collectNonQos σ rest
      some (σ, s :: subs)
    else collectNonQos (σ.brokerClearMesssageIds s) rest

/-- The third loop: the remaining SubRequesters wait for a new sid. -/
def resetSids (σ : State) (subs : List SubId) : Option State :=
  subs.foldlM (fun (σ : State) s => do
    let _ ← σ.sub.get s
    some (σ.modSub s (fun req => { req with reqSid := noSid }))) σ

/-- `broker_remote_dslink_free` and the end of `broker_close_link`. -/
def brokerCloseLink (σ : State) (d : DownId) : Option State := do
  let node ← σ.dnode.get d
  let σ := σ.modDnode d (fun node => { node with pendingAcks := node.pendingAcks.map Vec.free })
  let (σ, subs) ← σ.collectNonQos node.reqSubPaths.values
  let σ ← subs.foldlM (fun (σ : State) s => σ.brokerFreeSubRequester s) σ
  let node ← σ.dnode.get d
  let σ ← σ.resetSids node.reqSubPaths.values
  some (σ.modDnode d (fun node => { node with reqSubSids := .empty, link := none }))

end State

/-! ## Runs -/

/-- What happens to rows and to those that wait for them. `update` is a row that came over a link,
    `updateValue` a value with or without a timestamp; `attach` is a pending SubRequester whose path begins to
    lead somewhere. -/
inductive Event
  | newRequester
  | newStream
  | freeStream (st : StreamId)
  | openLink (d : DownId)
  | closeLink (d : DownId)
  | subscribe (d : DownId) (path : CString) (sid qos : Nat) (target : Option StreamId)
  | unsubscribe (d : DownId) (sid : Nat)
  | attach (s : SubId) (st : StreamId)
  | update (st : StreamId) (varray : ValueRow)
  | updateValue (st : StreamId) (value : Json) (ts : Option Json) (now : Json)
  | ack (d : DownId) (ack : Nat)

/-- One callback of the event loop. -/
def step (cfg : Config) (σ : State) : Event → Option State
  | .newRequester => some { σ with dnode := σ.dnode.alloc ⟨none, .empty, .empty, none⟩ }
  | .newStream => some { σ with stream := σ.stream.alloc ⟨none, .empty⟩ }
  | .freeStream st => σ.brokerStreamFree st
  | .openLink d => some (σ.modDnode d (fun node => { node with link := some (node.link.getD 0) }))
  | .closeLink d => σ.brokerCloseLink d
  | .subscribe d path sid qos target => σ.handleSubscribe cfg d path sid qos target
  | .unsubscribe d sid => σ.handleUnsubscribe d sid
  | .attach s st => σ.attach cfg s st
  | .update st varray => σ.brokerUpdateSubStream cfg st varray
  | .updateValue st value ts now => σ.brokerUpdateSubStreamValue cfg st value ts now
  | .ack d ack => σ.checkSubscriptionAck cfg d ack

end DSLink.SharedRows
