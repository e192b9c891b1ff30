import DSLink.Broker.State

/-!
# `Broker.Subscription` — `broker/src/subscription.c` and the sending half of `net/ws.c`

The functions of the source over `Broker`. A function that dereferences a pointer returns `none` where the
pointer is NULL or its target is freed; the others are total.

## Contents
- `brokerWsSendObj`, `sendMessage`, `sendQueuedLoop`: numbering a frame, sending a row, the send window. They
  work on a `Sender`, the part of the state one SubRequester can reach while it sends.
- `sendQueuedMessages`, `checkSubscriptionAck`, `brokerUpdateSubReq` and the rest of the file.
-/

namespace DSLink

variable {J : Type}

/-! ## `net/ws.c` -/

/-- `broker_ws_send_obj`: number the message, restart the counter at its maximum, write the frame. -/
def brokerWsSendObj (link : RemoteDSLink J) (obj : OutMsg J) : RemoteDSLink J × Nat :=
  let id := link.msgId + 1
  ({ link with msgId := if id = 2147483647 then 0 else id, sent := link.sent ++ [⟨id, obj⟩] }, id)

/-- `broker_ws_send_obj` on `node->link`. -/
def DownstreamNode.wsSend (node : DownstreamNode J) (obj : OutMsg J) : Option (DownstreamNode J) :=
  node.link.map (fun link => { node with link := some (brokerWsSendObj link obj).1 })

/-! ## `utils.c`: escaping of storage keys -/

/-- `encodeBase16`, on a non-negative code below 16; any other code gives `(char)-1`. -/
def encodeBase16 (code : Int) : UInt8 :=
  if 0 ≤ code ∧ code < 10 then (code.toNat + 48).toUInt8
  else if 0 ≤ code ∧ code < 16 then (code.toNat + 55).toUInt8
  else 255

/-- The value of a (signed) `char`. -/
def charVal (c : UInt8) : Int := if c < 128 then c.toNat else (c.toNat : Int) - 256

/-- The second pass of `dslink_str_escape`. Its test for `'%'` reads the terminator the first pass ended
    at; a `'%'` comes before `','` and is replaced all the same. -/
def dslinkStrEscape : CString → CString
  | [] => []
  | c :: rest =>
    if charVal c ≤ 44 ∨ c = 47 ∨ c = 58 ∨ c = 61 then
      37 :: encodeBase16 (charVal c / 16) :: encodeBase16 (charVal c % 16) :: dslinkStrEscape rest
    else c :: dslinkStrEscape rest

/-- `decodeBase16`; -1 on a byte that is no hexadecimal digit. -/
def decodeBase16 (c : UInt8) : Int :=
  if 48 ≤ c ∧ c ≤ 57 then c.toNat - 48
  else if 97 ≤ c ∧ c ≤ 102 then c.toNat - 87
  else if 65 ≤ c ∧ c ≤ 70 then c.toNat - 55
  else -1

/-- `dslink_str_unescape`. -/
def dslinkStrUnescape : CString → CString
  | 37 :: c1 :: c2 :: rest =>
    if -1 < decodeBase16 c1 ∧ -1 < decodeBase16 c2 then
      (decodeBase16 c1 * 16 + decodeBase16 c2).toNat.toUInt8 :: dslinkStrUnescape rest
    else 37 :: dslinkStrUnescape (c1 :: c2 :: rest)
  | c :: rest => c :: dslinkStrUnescape rest
  | [] => []

/-! ## Sending on behalf of one SubRequester -/

/-- `cmp_pack`. -/
def cmpPack (lhs rhs : PendingAck) : Int :=
  if lhs.msgId = rhs.msgId then 0 else if rhs.msgId < lhs.msgId then 1 else -1

/-- `cmp_pack_subs`. -/
def cmpPackSubs (lhs rhs : PendingAck) : Int := if lhs.subscription = rhs.subscription then 0 else -1

/-- What a SubRequester reaches while it sends: its requester's link and vector, its queue and its count. -/
structure Sender (J : Type) where
  link : RemoteDSLink J
  pendingAcks : Option (Vec PendingAck)
  messageQueue : Option (Ringbuffer (QueuedMessage J))
  messageOutputQueueCount : Nat

/-- `addPendingAck`. The vector is created on first use. -/
def addPendingAck (self : SubId) (msgId frame : Nat) (x : Sender J) : Sender J :=
  { x with
    pendingAcks := some ((x.pendingAcks.getD (Vec.init 64)).append ⟨self, msgId, frame⟩)
    messageOutputQueueCount := x.messageOutputQueueCount + 1 }

/-- `sendMessage`, with the number the frame got. -/
def sendMessage (self : SubId) (reqSid : Nat) (varray : Row J) (x : Sender J) : Sender J × Nat :=
  let sent := brokerWsSendObj x.link (.updates self [(reqSid, varray)])
  (addPendingAck self sent.2 x.link.sent.length { x with link := sent.1 }, sent.2)

/-- `rb_count(subReq->messageQueue)`, which is -1 on NULL. -/
def messageCount (q : Option (Ringbuffer (QueuedMessage J))) : Int :=
  match q with
  | some rb => rb.rbCount
  | none => -1

/-- The loop of `sendQueuedMessages`, with the number of rows sent. -/
def sendQueuedLoop (cfg : Config) (self : SubId) (reqSid : Nat) : Nat → Sender J → Nat → Sender J × Nat
  | 0, x, result => (x, result)
  | fuel + 1, x, result =>
    if x.messageOutputQueueCount < cfg.brokerMaxWsSendQueueSize then
      match x.messageQueue.bind (fun rb => rb.rbAt x.messageOutputQueueCount) with
      | none => (x, result)
      | some m =>
        if 0 < m.msgId then (x, result)
        else
          let sent := sendMessage self reqSid m.message x
          -- the number is stored through `&m->msg_id`, in the slot `m` was found in
          let q := sent.1.messageQueue.map
            (fun rb => rb.modifyAt x.messageOutputQueueCount (fun m => { m with msgId := sent.2 }))
          sendQueuedLoop cfg self reqSid fuel { sent.1 with messageQueue := q } (result + 1)
    else (x, result)

/-- The loop of `removeFromMessageQueue`. -/
def removeLoop (msgId : Nat) :
    Nat → Ringbuffer (QueuedMessage J) → Nat → Ringbuffer (QueuedMessage J) × Nat
  | 0, rb, result => (rb, result)
  | fuel + 1, rb, result =>
    match rb.rbFront with
    | none => (rb, result)
    | some m =>
      if m.msgId = 0 ∨ msgId < m.msgId then (rb, result)
      else removeLoop msgId fuel rb.rbPop.1 (result + 1)

/-- `removeFromMessageQueue`, with the number of rows removed. -/
def removeFromMessageQueue (q : Option (Ringbuffer (QueuedMessage J))) (msgId : Nat) :
    Option (Ringbuffer (QueuedMessage J)) × Nat :=
  match q with
  | none => (none, 0)
  | some rb => (some (removeLoop msgId rb.rbCount rb 0).1, (removeLoop msgId rb.rbCount rb 0).2)

/-- `addToMessageQueue`. The queue is created on first use. -/
def addToMessageQueue (cfg : Config) (q : Option (Ringbuffer (QueuedMessage J))) (varray : Row J)
    (msgId : Nat) : Option (Ringbuffer (QueuedMessage J)) :=
  match q with
  | some rb => some (rb.rbPush ⟨varray, msgId⟩).1
  | none => (Ringbuffer.rbInit cfg.brokerMaxQosQueueSize).map (fun rb => (rb.rbPush ⟨varray, msgId⟩).1)

/-- The loop of `broker_clear_messsage_ids`: the new queue and counter. -/
def clearIdsLoop : Nat → Option (Ringbuffer (QueuedMessage J)) → Option (Ringbuffer (QueuedMessage J)) × Nat
  | 0, q => (q, 0)
  | count + 1, q =>
    match q.bind (fun rb => rb.rbAt count) with
    | none => (q, 0)
    | some _ => clearIdsLoop count (q.map (fun rb => rb.modifyAt count (fun m => { m with msgId := 0 })))

/-- `broker_create_sub_requester`. -/
def brokerCreateSubRequester (node : DownId) (path : CString) (reqSid qos : Nat)
    (qosQueue : Option (List (Row J))) : SubRequester J where
  path := path
  reqNode := node
  stream := none
  reqSid := reqSid
  qos := qos
  qosQueue := match qosQueue with
    | some q => some q
    | none => if 2 < qos then some [] else none
  pendingNode := none
  messageQueue := none
  messageOutputQueueCount := 0

/-! ## The functions over the broker -/

namespace Broker

/-- Put back what a SubRequester changed while it sent. -/
def putSender (σ : Broker J) (s : SubId) (d : DownId) (x : Sender J) : Broker J :=
  (σ.modSub s (fun req =>
    { req with messageQueue := x.messageQueue, messageOutputQueueCount := x.messageOutputQueueCount })).modDnode
    d (fun node => { node with link := some x.link, pendingAcks := x.pendingAcks })

/-- `sendQueuedMessages`. -/
def sendQueuedMessages (cfg : Config) (σ : Broker J) (s : SubId) : Option (Broker J) := do
  let req ← σ.sub.get s
  let node ← σ.dnode.get req.reqNode
  match node.link with
  | none => some σ
  | some link =>
    if req.reqSid ≠ noSid ∧ messageCount req.messageQueue ≠ 0 then
      let x := (sendQueuedLoop cfg s req.reqSid cfg.brokerMaxWsSendQueueSize
        ⟨link, node.pendingAcks, req.messageQueue, req.messageOutputQueueCount⟩ 0).1
      some (σ.putSender s req.reqNode x)
    else some σ

/-- One round of the loop of `check_subscription_ack`. -/
def ackOne (cfg : Config) (σ : Broker J) (pack : PendingAck) : Option (Broker J) := do
  let req ← σ.sub.get pack.subscription
  let removed := removeFromMessageQueue req.messageQueue pack.msgId
  let σ := σ.modSub pack.subscription (fun req =>
    { req with
      messageQueue := removed.1
      messageOutputQueueCount := dec32 req.messageOutputQueueCount })
  if removed.2 ≠ 0 then sendQueuedMessages cfg σ pack.subscription else some σ

/-- The loop of `check_subscription_ack`, down from index `n - 1` of the vector of `d`. -/
def ackLoop (cfg : Config) (d : DownId) : Nat → Broker J → Option (Broker J)
  | 0, σ => some σ
  | idx + 1, σ => do
    let node ← σ.dnode.get d
    let vec ← node.pendingAcks
    let pack ← vec.get idx
    let σ ← ackOne cfg σ pack
    ackLoop cfg d idx σ

/-- The number of entries an ack removes: `vector_upper_bound` over `cmp_pack`, 0 on a NULL vector. -/
def ackCut (node : DownstreamNode J) (ack : Nat) : Nat :=
  match node.pendingAcks with
  | none => 0
  | some vec => vec.upperBound ⟨0, ack, 0⟩ cmpPack

/-- `check_subscription_ack` on the link of `d`. -/
def checkSubscriptionAck (cfg : Config) (σ : Broker J) (d : DownId) (ack : Nat) : Option (Broker J) := do
  let node ← σ.dnode.get d
  let last := ackCut node ack
  let σ ← ackLoop cfg d last σ
  some (σ.modDnode d (fun node => { node with pendingAcks := node.pendingAcks.map (fun v => v.erasePrefix last) }))

/-- `broker_node_incr_rid`. -/
def incrRid (rid : Nat) : Nat := (if 2147483647 ≤ rid then 1 else rid) + 1

/-- `broker_node_incr_sid`: the new counter and the sid that is handed out. -/
def incrSid (sid : Nat) : Nat × Nat :=
  let sid := if 2147483647 ≤ sid then 0 else sid
  (sid + 1, sid)

/-- `send_subscribe_request`. -/
def sendSubscribeRequest (σ : Broker J) (d : DownId) (path : CString) (sid qos : Nat) : Option (Broker J) := do
  let node ← σ.dnode.get d
  let rid := incrRid node.rid
  let node ← { node with rid := rid }.wsSend (.subscribe rid path sid qos)
  some (σ.modDnode d (fun _ => node))

/-- `serialize_qos_queue`. -/
def serializeQosQueue (σ : Broker J) (s : SubId) (delete : Bool) : Option (Broker J) := do
  let req ← σ.sub.get s
  let node ← σ.dnode.get req.reqNode
  let key := (dslinkStrEscape node.path, dslinkStrEscape req.path)
  some { σ with
    storage := if delete then σ.storage.erase key else σ.storage.set key (req.qos, req.qosQueue) }

/-- `serialize_qos_queue` under a condition. -/
def serializeIf (σ : Broker J) (c : Prop) [Decidable c] (s : SubId) (delete : Bool) : Option (Broker J) :=
  if c then serializeQosQueue σ s delete else some σ

/-- `clear_qos_queue`. -/
def clearQosQueue (σ : Broker J) (s : SubId) (serialize : Bool) : Option (Broker J) := do
  let req ← σ.sub.get s
  let σ := σ.modSub s (fun req => { req with qosQueue := req.qosQueue.map (fun _ => []) })
  serializeIf σ (serialize ∧ 2 < req.qos) s false

/-- `broker_update_sub_req_qos`. -/
def brokerUpdateSubReqQos (σ : Broker J) (s : SubId) : Option (Broker J) := do
  let req ← σ.sub.get s
  let node ← σ.dnode.get req.reqNode
  match node.link with
  | none => some σ
  | some link =>
    let rows := (req.qosQueue.getD []).map (fun row => (req.reqSid, row))
    let σ := σ.modDnode req.reqNode (fun node =>
      { node with link := some (brokerWsSendObj link (.updates s rows)).1 })
    clearQosQueue σ s true

/-- `broker_clear_messsage_ids`. -/
def brokerClearMesssageIds (σ : Broker J) (s : SubId) : Broker J :=
  σ.modSub s (fun req =>
    let cleared := clearIdsLoop req.messageOutputQueueCount req.messageQueue
    { req with messageQueue := cleared.1, messageOutputQueueCount := cleared.2 })

/-- `broker_update_sub_req`. Its result only feeds `last_pending_responder_msg_id`, which nothing reads. -/
def brokerUpdateSubReq (cfg : Config) (σ : Broker J) (s : SubId) (varray : Row J) : Option (Broker J) := do
  let req ← σ.sub.get s
  let node ← σ.dnode.get req.reqNode
  let σ := { σ with published := σ.published ++ [(s, varray)] }
  if req.qos ≤ 2 then
    let q ← addToMessageQueue cfg req.messageQueue varray 0
    sendQueuedMessages cfg (σ.modSub s (fun req => { req with messageQueue := some q })) s
  else
    match node.link with
    | some link =>
      let x := (sendMessage s req.reqSid varray
        ⟨link, node.pendingAcks, req.messageQueue, req.messageOutputQueueCount⟩).1
      some (σ.putSender s req.reqNode x)
    | none =>
      let queue := req.qosQueue.getD []
      if cfg.brokerMaxQosQueueSize ≤ queue.length then
        -- a full queue is destroyed, and the row with it
        clearQosQueue (σ.modSub s (fun req => { req with qosQueue := some queue })) s true
      else
        serializeQosQueue (σ.modSub s (fun req => { req with qosQueue := some (queue ++ [varray]) })) s false

/-- `broker_update_sub_reqs`. -/
def brokerUpdateSubReqs (cfg : Config) (σ : Broker J) (st : StreamId) : Option (Broker J) := do
  let stream ← σ.stream.get st
  match stream.lastValue with
  | none => some σ
  | some row => stream.reqSubs.values.foldlM (fun σ s => brokerUpdateSubReq cfg σ s row) σ

/-- `broker_update_sub_stream`. -/
def brokerUpdateSubStream (cfg : Config) (σ : Broker J) (st : StreamId) (varray : Row J) :
    Option (Broker J) := do
  let _ ← σ.stream.get st
  brokerUpdateSubReqs cfg (σ.modStream st (fun stream => { stream with lastValue := some varray })) st

/-- `broker_update_sub_stream_value`; `now` is the clock's text for a missing `ts`. -/
def brokerUpdateSubStreamValue (cfg : Config) (σ : Broker J) (st : StreamId) (value : J) (ts : Option J)
    (now : J) : Option (Broker J) :=
  brokerUpdateSubStream cfg σ st [value, ts.getD now]

/-- The largest qos of the SubRequesters of a stream, at least 0. -/
def maxQosOf (σ : Broker J) : List SubId → Option Nat
  | [] => some 0
  | s :: rest => do
    let req ← σ.sub.get s
    let q ← maxQosOf σ rest
    some (max req.qos q)

/-- `broker_update_stream_qos`. -/
def brokerUpdateStreamQos (σ : Broker J) (st : Option StreamId) : Option (Broker J) := do
  match st with
  | none => some σ
  | some st =>
    let stream ← σ.stream.get st
    match stream.remotePath, stream.respNode with
    | some remotePath, .downstream d =>
      let maxQos ← maxQosOf σ stream.reqSubs.values
      let node ← σ.dnode.get d
      let σ := σ.modStream st (fun stream => { stream with respQos := maxQos })
      if maxQos ≠ stream.respQos ∧ node.link.isSome then
        sendSubscribeRequest σ d remotePath stream.respSid maxQos
      else some σ
    | _, _ => some σ

/-- `broker_update_sub_qos`. -/
def brokerUpdateSubQos (σ : Broker J) (s : SubId) (qos : Nat) : Option (Broker J) := do
  let req ← σ.sub.get s
  if req.qos = qos then some σ
  else
    let oldqos := req.qos
    let σ := σ.modSub s (fun req => { req with qos := qos })
    -- the queue file belongs to level 3 only
    let σ ← serializeIf σ (oldqos = 3 ∧ qos ≠ 3) s true
    let σ := σ.modSub s (fun req =>
      { req with qosQueue := if 0 < req.qos ∧ req.qosQueue = none then some [] else req.qosQueue })
    let σ ← brokerUpdateStreamQos σ req.stream
    serializeIf σ (qos = 3 ∧ oldqos ≠ 3) s false

end Broker

end DSLink
