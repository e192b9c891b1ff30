import DSLink.Broker.Stream

/-!
# `Broker.Link` — requests and the life of a link

`handle_subscribe`, `handle_unsubscribe`, `broker_remote_dslink_free`, `broker_close_link`,
`broker_dslink_connect` and `broker_load_qos_storage`.
-/

namespace DSLink

variable {J : Type}

/-- One element of `paths` in a subscribe request. A member that is missing or has the wrong type is `none`
    for `path` and `qos`; any `sid` that is no integer reads as 0. `permissionOnPath` is the result of
    `get_permission`. -/
structure SubscribeEntry where
  path : Option CString
  sid : Option Int
  qos : Option Int
  permissionOnPath : PermissionLevel

namespace Broker

/-! ## Requests -/

/-- The end of the `pathsub` block of `handle_subscribe`: what waits for `s`, or the last value, is sent. -/
def sendWaiting (cfg : Config) (σ : Broker J) (s : SubId) : Option (Broker J) := do
  let req ← σ.sub.get s
  if req.qosQueue.getD [] ≠ [] then brokerUpdateSubReqQos σ s
  else if req.qos = 2 then sendQueuedMessages cfg σ s
  else
    match req.stream with
    | none => some σ
    | some st => sendLastValue cfg σ s st

/-- `pathsub->reqSid = sid` with the two changes of the sid index around it. -/
def rekey (σ : Broker J) (d : DownId) (s : SubId) (sid : Nat) : Option (Broker J) := do
  let req ← σ.sub.get s
  let σ := σ.modDnode d (fun node => { node with reqSubSids := node.reqSubSids.erase req.reqSid })
  let σ := σ.modSub s (fun req => { req with reqSid := sid })
  some (σ.modDnode d (fun node => { node with reqSubSids := node.reqSubSids.set sid s }))

/-- The `pathsub` block of `handle_subscribe`: a subscription to a known path gets a new sid and qos. -/
def resubscribe (cfg : Config) (σ : Broker J) (d : DownId) (s : SubId) (sid qos : Nat) : Option (Broker J) := do
  let σ ← σ.rekey d s sid
  let σ ← brokerUpdateSubQos σ s qos
  σ.sendWaiting cfg s

/-- The end of `handle_subscribe`: a SubRequester for a new path. -/
def subscribeNew (cfg : Config) (σ : Broker J) (d : DownId) (path : CString) (sid qos : Nat) (now : J) :
    Option (Broker J) := do
  let s := σ.sub.next
  let σ := { σ with sub := σ.sub.alloc (brokerCreateSubRequester d path sid qos none) }
  let σ ← serializeIf σ (2 < qos) s false
  σ.brokerAddNewSubscription cfg s now

/-- `handle_subscribe` past its checks. -/
def subscribePath (cfg : Config) (σ : Broker J) (d : DownId) (path : CString) (sid qos : Nat) (now : J) :
    Option (Broker J) := do
  let node ← σ.dnode.get d
  let idsub := node.reqSubSids.get sid
  let pathsub := node.reqSubPaths.get path
  match idsub, pathsub with
  | some s, some s' =>
    if s = s' then brokerUpdateSubQos σ s qos
    else do
      let σ ← σ.brokerFreeSubRequester s
      σ.resubscribe cfg d s' sid qos
  | some s, none => do
    let σ ← σ.brokerFreeSubRequester s
    σ.subscribeNew cfg d path sid qos now
  | none, some s' => σ.resubscribe cfg d s' sid qos
  | none, none => σ.subscribeNew cfg d path sid qos now

/-- `handle_subscribe` on the link of `d`. -/
def handleSubscribe (cfg : Config) (σ : Broker J) (d : DownId) (sub : SubscribeEntry) (now : J) :
    Option (Broker J) :=
  match sub.path, sub.sid with
  | some path, some jSid =>
    if sub.permissionOnPath.toNat < PermissionLevel.read.toNat then some σ
    else σ.subscribePath cfg d path (toU32 jSid) ((sub.qos.map toU8).getD 0) now
  | _, _ => some σ

/-- `handle_unsubscribe` on the link of `d`. -/
def handleUnsubscribe (σ : Broker J) (d : DownId) (sid : Nat) : Option (Broker J) := do
  let node ← σ.dnode.get d
  match node.reqSubSids.get sid with
  | none => some σ
  | some s =>
    (σ.modDnode d (fun node => { node with reqSubSids := node.reqSubSids.erase sid })).brokerFreeSubRequester s

/-! ## Closing a link -/

/-- The first loop of `broker_remote_dslink_free` over `req_sub_paths`: the SubRequesters below qos 2 are
    collected, the others forget which rows they sent. -/
def collectNonQos (σ : Broker J) : List SubId → Option (Broker J × List SubId)
  | [] => some (σ, [])
  | s :: rest => do
    let req ← σ.sub.get s
    if req.qos ≤ 1 then
      let (σ, subs) ← collectNonQos σ rest
      some (σ, s :: subs)
    else collectNonQos (σ.brokerClearMesssageIds s) rest

/-- The second loop: free what was collected. -/
def freeSubs (σ : Broker J) (subs : List SubId) : Option (Broker J) :=
  subs.foldlM (fun σ s => σ.brokerFreeSubRequester s) σ

/-- The third loop: the remaining SubRequesters wait for a new sid. -/
def resetSids (σ : Broker J) (subs : List SubId) : Option (Broker J) :=
  subs.foldlM (fun σ s => do
    let _ ← σ.sub.get s
    some (σ.modSub s (fun req => { req with reqSid := noSid }))) σ

/-- `broker_remote_dslink_free` on the link of `d`. -/
def brokerRemoteDslinkFree (σ : Broker J) (d : DownId) : Option (Broker J) := do
  let node ← σ.dnode.get d
  let σ := σ.modDnode d (fun node => { node with pendingAcks := node.pendingAcks.map Vec.free })
  let (σ, subs) ← σ.collectNonQos node.reqSubPaths.values
  let σ ← σ.freeSubs subs
  let node ← σ.dnode.get d
  let σ ← σ.resetSids node.reqSubPaths.values
  some (σ.modDnode d (fun node => { node with reqSubSids := .empty }))

/-- `broker_close_link`. -/
def brokerCloseLink (σ : Broker J) (d : DownId) : Option (Broker J) := do
  let σ ← σ.brokerRemoteDslinkFree d
  some (σ.modDnode d (fun node => { node with link := none }))

/-! ## Opening a link -/

/-- The loop of `broker_dslink_connect` over `resp_sub_streams`. -/
def resendSubscriptions (σ : Broker J) (d : DownId) (streams : List StreamId) : Option (Broker J) :=
  streams.foldlM (fun σ st => do
    let stream ← σ.stream.get st
    sendSubscribeRequest σ d (stream.remotePath.getD []) stream.respSid stream.respQos) σ

/-- The loop of `broker_dslink_connect` over the pending SubRequesters; `len` is `strlen(link->path)`. -/
def attachPending (cfg : Config) (σ : Broker J) (d : DownId) (len : Nat) (subs : List SubId) :
    Option (Broker J) :=
  subs.foldlM (fun σ s => do
    let req ← σ.sub.get s
    σ.brokerSubscribeRemote cfg d s (req.path.drop len)) σ

/-- The path of a new link: the one of its node below `/downstream`, NULL below `/upstream`. -/
def linkPath (σ : Broker J) (node : DownstreamNode J) : Option CString :=
  if node.parent = some σ.downstream then some node.path else none

/-- `broker_dslink_connect` with a new link for `d`. -/
def brokerDslinkConnect (cfg : Config) (σ : Broker J) (d : DownId) : Option (Broker J) := do
  let node ← σ.dnode.get d
  let path := σ.linkPath node
  let σ := σ.modDnode d (fun node => { node with link := some ⟨path, 0, []⟩ })
  let σ ← σ.resendSubscriptions d node.respSubStreams.values
  match σ.remotePendingSub.get node.path with
  | none => some σ
  | some subs =>
    let σ := { σ with remotePendingSub := σ.remotePendingSub.erase node.path }
    let len ← path.map List.length
    let σ ← σ.attachPending cfg d len subs
    some (σ.subsListFree subs)

/-! ## Restoring stored subscriptions -/

/-- One round of the inner loop of `broker_load_qos_storage`: restore a stored SubRequester of `d`. -/
def restoreSub (cfg : Config) (σ : Broker J) (d : DownId) (path : CString) (qos : Nat)
    (qosQueue : List (Row J)) (now : J) : Option (Broker J) :=
  let s := σ.sub.next
  { σ with sub := σ.sub.alloc (brokerCreateSubRequester d path 0 qos (some qosQueue)) }.brokerAddNewSubscription
    cfg s now

/-- `dslink_storage_destroy_group`. -/
def destroyGroup (σ : Broker J) (group : CString) : Broker J :=
  let keys := (σ.storage.entries.map Prod.fst).filter (fun k => k.1 = group)
  { σ with storage := keys.foldl (fun m k => m.erase k) σ.storage }

/-- The stored file with the given keys: restored below a downstream node; the group of any other node is
    destroyed. -/
def loadQosFile (cfg : Config) (now : J) (σ : Broker J) (key : CString × CString) : Option (Broker J) := do
  let reqPath := dslinkStrUnescape key.1
  let node ← σ.brokerNodeGet reqPath
  match node, σ.storage.get key with
  | some (.downstream d, _), some (qos, some queue) =>
    σ.restoreSub cfg d (dslinkStrUnescape key.2) (qos % 256) queue now
  | some (.downstream _, _), _ => some σ
  | _, _ => some (σ.destroyGroup reqPath)

/-- `broker_load_qos_storage`. -/
def brokerLoadQosStorage (cfg : Config) (σ : Broker J) (now : J) : Option (Broker J) :=
  (σ.storage.entries.map Prod.fst).foldlM (loadQosFile cfg now) σ

end Broker

end DSLink
