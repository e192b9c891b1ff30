import DSLink.Broker.Attribute

/-!
# `Broker.LocalList` — the list caches of the broker's own nodes

`build_list_cache` builds the cache of a local node when the first requester lists it. From then on the handlers patch
it: `update_list_child`, `update_list_attribute` and a few deletions by hand. This module has the nodes with their
metadata, the links of the nodes below `/downstream` and `/upstream`, the list streams of local nodes and every handler
that changes one of them. Who may call a handler is not part of it; neither are values and permission lists.

A node is found by the names that lead to it, so its children are the nodes whose path is one name longer.

## Contents
- `Broker` and its parts. `buildListCache`, `updateListChild`, `updateListAttribute`.
- List requests and their end, links that come and go, nodes that come and go, tokens, permission groups.
- `Event`, `step`.
-/

namespace DSLink.LocalList

/-- The names that lead to a node, the last one first. The root is `[]`. -/
abbrev Path := List CString

/-- `broker->downstream`. -/
def downstream : Path := [cstr "downstream"]

/-- `broker->upstream`. -/
def upstream : Path := [cstr "upstream"]

/-- The node `/sys/upstream`. -/
def sysUpstream : Path := [cstr "upstream", cstr "sys"]

/-- `tokenRootNode`. -/
def tokenRootNode : Path := [cstr "root", cstr "tokens", cstr "sys"]

/-- A `BrokerListStream` by its address. -/
abbrev ListStreamId := Nat

/-- A `RemoteDSLink` by its address. -/
abbrev LinkId := Nat

/-- What only one of the two types of nodes has. -/
inductive NodeKind
  | regular (listStream : Option ListStreamId)
  | downstream (dsId : Option CString) (link : Option LinkId)

/-- `BrokerNode` or `DownstreamNode`. -/
structure BrokerNode where
  metadata : Metadata
  kind : NodeKind

/-- `BrokerListStream` on a local node. `requester_links` compares links by their dsId. -/
structure BrokerListStream where
  node : Path
  requesterLinks : AssocMap CString (LinkId × Nat)
  updatesCache : Metadata

/-- `RemoteDSLink`. Its table of requester streams is kept for the streams of this model. -/
structure RemoteDSLink where
  name : CString
  isUpstream : Bool
  dsId : Option CString
  linkData : Option Json
  requesterStreams : AssocMap Nat ListStreamId

/-- `Broker`. -/
structure Broker where
  node : AssocMap Path BrokerNode
  stream : Heap BrokerListStream
  link : Heap RemoteDSLink

/-- `node->list_stream`. -/
def BrokerNode.listStream (n : BrokerNode) : Option ListStreamId :=
  match n.kind with
  | .regular listStream => listStream
  | .downstream _ _ => none

/-- `node->link`. -/
def BrokerNode.link (n : BrokerNode) : Option LinkId :=
  match n.kind with
  | .regular _ => none
  | .downstream _ link => link

/-- `node->dsId`. -/
def BrokerNode.dsId (n : BrokerNode) : Option CString :=
  match n.kind with
  | .regular _ => none
  | .downstream dsId _ => dsId

/-- `list_stream` of a node that has one. -/
def BrokerNode.setListStream (n : BrokerNode) (s : Option ListStreamId) : BrokerNode :=
  match n.kind with
  | .regular _ => { n with kind := .regular s }
  | .downstream _ _ => n

/-- Change a node that is a `DownstreamNode`. -/
def BrokerNode.modDownstream (n : BrokerNode) (f : BrokerNode → BrokerNode) : BrokerNode :=
  match n.kind with
  | .regular _ => n
  | .downstream _ _ => f n

/-- Where the node of a link stands. -/
def RemoteDSLink.home (link : RemoteDSLink) : Path := link.name :: if link.isUpstream then upstream else downstream

/-- `json_object_set`, or `json_object_del` for NULL. -/
def setMember (object : Metadata) (key : CString) : Option Json → Metadata
  | some value => object.set key value
  | none => object.erase key

namespace Broker

variable (σ : Broker)

/-! ## The state -/

/-- The `meta` of a node. -/
def metadata (p : Path) : Metadata := (σ.node.get p).elim .empty BrokerNode.metadata

/-- The list stream of a node. -/
def listStream (p : Path) : Option ListStreamId := (σ.node.get p).bind BrokerNode.listStream

/-- The link of a node. -/
def linkOf (p : Path) : Option LinkId := (σ.node.get p).bind BrokerNode.link

/-- `node->children`. -/
def children (p : Path) : List (CString × BrokerNode) :=
  σ.node.entries.filterMap (fun e => e.1.head?.bind (fun name => if e.1.tail = p then some (name, e.2) else none))

/-- Change a node that is there. -/
def modNode (p : Path) (f : BrokerNode → BrokerNode) : Broker :=
  match σ.node.get p with
  | none => σ
  | some n => { σ with node := σ.node.set p (f n) }

/-- `json_object_set` or `json_object_del` on the `meta` of a node. -/
def setMeta (p : Path) (key : CString) (value : Option Json) : Broker :=
  σ.modNode p (fun n => { n with metadata := setMember n.metadata key value })

/-- `node->list_stream = s`. -/
def setListStream (p : Path) (s : Option ListStreamId) : Broker := σ.modNode p (fun n => n.setListStream s)

/-- The same on a downstream node. -/
def setDownstreamMeta (p : Path) (key : CString) (value : Option Json) : Broker :=
  σ.modNode p (fun n => n.modDownstream (fun n => { n with metadata := setMember n.metadata key value }))

/-- `node->link = L`. -/
def setLink (p : Path) (L : Option LinkId) : Broker :=
  σ.modNode p (fun n => n.modDownstream (fun n => { n with kind := .downstream n.dsId L }))

/-- `node->dsId = dsId`. -/
def setDsId (p : Path) (dsId : Option CString) : Broker :=
  σ.modNode p (fun n => n.modDownstream (fun n => { n with kind := .downstream dsId n.link }))

/-! ## `msg/msg_list.c` -/

/-- The members of a child's `meta` that its parent lists. -/
def topLevelKeys : List CString :=
  [cstr "$is", cstr "$invokable", cstr "$type", cstr "$writable", cstr "$hidden"]

/-- `list_set_top_level`. -/
def listSetTopLevel (child : BrokerNode) : Metadata :=
  topLevelKeys.foldl (fun obj key => Site.setIfAny obj key (child.metadata.get key)) .empty

/-- `node->link->linkData`. -/
def linkData (child : BrokerNode) : Option Json := (child.link.bind σ.link.get).bind RemoteDSLink.linkData

/-- The row of a child, which `build_list_cache` and `update_list_child` make in the same way. -/
def childRow (child : BrokerNode) : Json :=
  .object (Site.setIfAny (listSetTopLevel child) (cstr "$linkData") (σ.linkData child)).entries

/-- `build_list_cache`, from the empty cache. -/
def buildListCache (p : Path) : Metadata :=
  let cache := Site.setIfAny .empty (cstr "$is") ((σ.metadata p).get (cstr "$is"))
  let cache := (σ.metadata p).entries.foldl (fun cache e => cache.set e.1 e.2) cache
  (σ.children p).foldl (fun cache e => cache.set e.1 (σ.childRow e.2)) cache

/-- Set or delete one member of the cache of a stream. -/
def patch (s : ListStreamId) (key : CString) (value : Option Json) : Broker :=
  { σ with stream := σ.stream.modify s (fun st => { st with updatesCache := setMember st.updatesCache key value }) }

/-- `update_list_child`. Nothing is done without a stream. -/
def updateListChild (p : Path) (s : Option ListStreamId) (name : CString) : Broker :=
  match s with
  | none => σ
  | some s => σ.patch s name ((σ.node.get (name :: p)).map σ.childRow)

/-- `update_list_attribute`. -/
def updateListAttribute (s : Option ListStreamId) (name : CString) (value : Option Json) : Broker :=
  match s with
  | none => σ
  | some s => σ.patch s name value

/-- `broker_add_requester_list_stream`. The link is hashed by its dsId. -/
def brokerAddRequesterListStream (L : LinkId) (s : ListStreamId) (rid : Nat) : Option Broker := do
  let link ← σ.link.get L
  let dsId ← link.dsId
  let stream ← σ.stream.get s
  -- in case a client error causes same path to be listed twice
  let streams := ((stream.requesterLinks.get dsId).map Prod.snd).elim link.requesterStreams link.requesterStreams.erase
  some { σ with
    stream := σ.stream.put s { stream with requesterLinks := (stream.requesterLinks.erase dsId).set dsId (L, rid) }
    link := σ.link.put L { link with requesterStreams := streams.set rid s } }

/-- `broker_list_self`. -/
def brokerListSelf (L : LinkId) (p : Path) (rid : Nat) : Option Broker := do
  let node ← σ.node.get p
  match node.kind with
  | .downstream _ _ => none
  | .regular (some s) => σ.brokerAddRequesterListStream L s rid
  | .regular none =>
    let opened : Broker := { σ with stream := σ.stream.alloc ⟨p, .empty, σ.buildListCache p⟩ }
    (opened.setListStream p (some σ.stream.next)).brokerAddRequesterListStream L σ.stream.next rid

/-- `node->list_stream = NULL` for the node of a stream; the node may already be gone. -/
def dropListStream (s : ListStreamId) (p : Path) : Broker :=
  if σ.listStream p = some s then σ.setListStream p none else σ

/-- `requester_stream_closed` with `broker_list_req_closed`. A stream that nobody requests any more is freed. -/
def requesterStreamClosed (s : ListStreamId) (L : LinkId) : Option Broker := do
  let stream ← σ.stream.get s
  let link ← σ.link.get L
  let dsId ← link.dsId
  let requesterLinks := stream.requesterLinks.erase dsId
  if requesterLinks.size = 0 then
    some { σ.dropListStream s stream.node with stream := σ.stream.free s }
  else
    some { σ with stream := σ.stream.put s { stream with requesterLinks } }

/-- `broker_msg_handle_close` for a stream of this model. -/
def brokerMsgHandleClose (L : LinkId) (rid : Nat) : Option Broker := do
  let link ← σ.link.get L
  match link.requesterStreams.get rid with
  | none => some σ
  | some s =>
    let closing : RemoteDSLink := { link with requesterStreams := link.requesterStreams.erase rid }
    requesterStreamClosed { σ with link := σ.link.put L closing } s L

/-- A stream of another kind is filed in the table of a requester. -/
def fileOther (L : LinkId) (rid : Nat) : Broker :=
  { σ with link := σ.link.modify L (fun link => { link with requesterStreams := link.requesterStreams.erase rid }) }

/-- `broker_stream_free` for a list stream: its requesters forget it. -/
def brokerStreamFree (s : ListStreamId) : Option Broker := do
  let stream ← σ.stream.get s
  let τ ← stream.requesterLinks.entries.foldlM (fun τ e => do
    let _ ← τ.link.get e.2.1
    some (τ.fileOther e.2.1 e.2.2)) σ
  some { τ with stream := τ.stream.free s }

/-! ## Nodes that come and go -/

/-- `broker_node_update_child`. -/
def brokerNodeUpdateChild (parent : Path) (name : CString) : Broker :=
  σ.updateListChild parent (σ.listStream parent) name

/-- `broker_node_create` and `broker_node_add`, with the `meta` the node has by then. Only a regular node has a map of
    children. -/
def brokerNodeAdd (parent : Path) (name : CString) (metadata : Metadata) : Option Broker := do
  let node ← σ.node.get parent
  match node.kind, σ.node.get (name :: parent) with
  | .regular _, none =>
    let added : Broker := { σ with node := σ.node.set (name :: parent) ⟨metadata, .regular none⟩ }
    some (added.brokerNodeUpdateChild parent name)
  | _, _ => none

/-- `broker_init_downstream_node`. -/
def brokerInitDownstreamNode (parent : Path) (name : CString) : Broker :=
  let metadata := AssocMap.empty.set (cstr "$is") (Json.string (cstr "dsa/link"))
  let added : Broker := { σ with node := σ.node.set (name :: parent) ⟨metadata, .downstream none none⟩ }
  added.brokerNodeUpdateChild parent name

/-- The nodes of a set leave their maps. -/
def removeNodes (gone : Path → Bool) : Broker := { σ with node := σ.node.filterKeys (fun p => !gone p) }

/-- `broker_node_free` on a node whose parent pointer is NULL: the node and all below it are freed with their list
    streams. -/
def freeBelow (p : Path) : Option Broker := do
  let τ ← (σ.node.entries.filter (fun e => p.isSuffixOf e.1)).foldlM (fun τ e =>
    e.2.listStream.elim (some τ) τ.brokerStreamFree) σ
  some (τ.removeNodes p.isSuffixOf)

/-- `broker_node_free`. -/
def brokerNodeFree (parent : Path) (name : CString) : Option Broker := do
  let _ ← σ.node.get (name :: parent)
  let τ ← σ.freeBelow (name :: parent)
  some (τ.brokerNodeUpdateChild parent name)

/-! ## Attributes of local nodes -/

/-- `broker_msg_check_set_arrtribtues` and `broker_msg_handle_remove` where they find a local node. Only names that
    start with '@' are attributes. -/
def setAttribute (p : Path) (name : CString) (value : Option Json) : Option Broker := do
  let node ← σ.node.get p
  match node.kind with
  | .downstream _ _ => none
  | .regular listStream =>
    if name.head? = some 64 then some ((σ.setMeta p name value).updateListAttribute listStream name value)
    else some σ

/-! ## Data nodes -/

/-- The `meta` of a node with the profile "node". -/
def nodeMetadata (members : List (CString × Json)) : Metadata :=
  members.foldl (fun metadata e => metadata.set e.1 e.2) (AssocMap.empty.set (cstr "$is") (.string (cstr "node")))

/-- The `meta` of a data node. -/
def dataMetadata : Metadata :=
  nodeMetadata [(cstr "$type", .string (cstr "dynamic")), (cstr "$writable", .string (cstr "write"))]

/-- An entry of `broker_invoke_create_param`. -/
def createParam (param : String × String) : Json :=
  .object [(cstr "name", .string (cstr param.1)), (cstr "type", .string (cstr param.2))]

/-- The `meta` of an action on data nodes. -/
def actionMetadata (params : List (String × String)) : Metadata :=
  nodeMetadata ((cstr "$invokable", .string (cstr "write")) ::
    if params = [] then [] else [(cstr "$params", .array (params.map createParam))])

/-- The actions `broker_create_data_actions` gives a node. -/
def dataActions : List (CString × Metadata) :=
  [(cstr "addNode", actionMetadata [("Name", "string")]),
   (cstr "addValue", actionMetadata [("Name", "string"), ("Type", "enum[string,number,bool,array,map,dynamic]"),
      ("Editor", "enum[none,textarea,password,daterange,date]")]),
   (cstr "deleteNode", actionMetadata [])]

/-- Nodes are added below one node, those that cannot be are not. -/
def addAll (parent : Path) (nodes : List (CString × Metadata)) : Broker :=
  nodes.foldl (fun τ e => (τ.brokerNodeAdd parent e.1 e.2).getD τ) σ

/-- `on_add_node_invoked` and `on_add_value_invoked` below the node `p`. -/
def onAddNodeInvoked (p : Path) (name : CString) : Broker :=
  match σ.brokerNodeAdd p name dataMetadata with
  | none => σ
  | some τ => τ.addAll (name :: p) dataActions

/-- `broker_create_dynamic_data_node`, over the names between the slashes. -/
def brokerCreateDynamicDataNode (σ : Broker) (p : Path) : List CString → Broker
  | [] => σ
  | name :: names =>
    if (σ.node.get (name :: p)).isSome then brokerCreateDynamicDataNode σ (name :: p) names
    else
      match σ.brokerNodeAdd p name dataMetadata with
      | none => σ
      | some τ => brokerCreateDynamicDataNode (τ.addAll (name :: p) dataActions) (name :: p) names

/-- The first half of `on_delete_node_invoked`: a node that is listed deletes its own name from its own cache. Where
    it has requesters, those of its parent are told, which has to have a list stream. -/
def deleteOwnName (parent : Path) (name : CString) : Option Broker :=
  match (σ.listStream (name :: parent)).bind σ.stream.get with
  | none => some σ
  | some stream =>
    if stream.requesterLinks.size > 0 ∧ σ.listStream parent = none then none
    else some (σ.updateListAttribute (σ.listStream (name :: parent)) name none)

/-- `on_delete_node_invoked` for the node `name` below `parent`. -/
def onDeleteNodeInvoked (parent : Path) (name : CString) : Option Broker := do
  let τ ← σ.deleteOwnName parent name
  τ.brokerNodeFree parent name

/-! ## Links -/

/-- `broker_remote_dslink_free`: the requests of the link are closed. -/
def brokerRemoteDSLinkFree (L : LinkId) : Option Broker := do
  let link ← σ.link.get L
  link.requesterStreams.values.foldlM (fun τ s => τ.requesterStreamClosed s L) σ

/-- `broker_close_link`. The time of `broker_dslink_disconnect` is `ts`. -/
def brokerCloseLink (L : LinkId) (ts : CString) : Option Broker := do
  let link ← σ.link.get L
  let τ ← σ.brokerRemoteDSLinkFree L
  let υ := (τ.setLink link.home none).setDownstreamMeta link.home (cstr "$disconnectedTs") (some (.string ts))
  some { υ with link := υ.link.free L }

/-- `broker_close_link`, which returns for NULL. -/
def brokerCloseLinkIfAny (L : Option LinkId) (ts : CString) : Option Broker :=
  L.elim (some σ) (fun L => σ.brokerCloseLink L ts)

/-- `broker_dslink_connect`. -/
def brokerDSLinkConnect (p : Path) (L : LinkId) : Broker :=
  (σ.setLink p (some L)).setDownstreamMeta p (cstr "$disconnectedTs") none

/-- The downstream node a handshake is about, which is created when it is not there. -/
def downstreamNode (name : CString) : Broker :=
  if (σ.node.get (name :: downstream)).isSome then σ else σ.brokerInitDownstreamNode downstream name

/-- `broker_handshake_handle_ws` for a link that is waiting. A new node gets its row once the link is there. -/
def brokerHandshakeHandleWs (L : LinkId) (dsId ts : CString) : Option Broker := do
  let link ← σ.link.get L
  let p := link.name :: downstream
  let existing := σ.node.get p
  let τ ← (σ.downstreamNode link.name).brokerCloseLinkIfAny (σ.linkOf p) ts
  let link ← τ.link.get L
  if link.isUpstream then none
  else
    let oldDsId := existing.elim (some dsId) BrokerNode.dsId
    let τ : Broker := { τ with link := τ.link.put L { link with dsId := oldDsId } }
    let τ := (τ.setDsId p oldDsId).setDownstreamMeta p (cstr "$$dsId") (some (.string dsId))
    let τ := τ.brokerDSLinkConnect p L
    some (if existing.isNone then τ.updateListChild downstream (τ.listStream downstream) link.name else τ)

/-! ## Tokens -/

/-- `token_used`. -/
def tokenUsed (p : Path) : Broker :=
  match (σ.metadata p).get (cstr "$$count") with
  | some (.integer count) => if count > 0 then σ.setMeta p (cstr "$$count") (some (.integer (count - 1))) else σ
  | _ => σ

/-- What `get_token_node` finds outside of the nodes: whether the file of the token is there, and whether the hash is
    right. -/
structure TokenCheck where
  file : Bool
  hash : Bool

/-- A token node that lets a link in: its count is not used up, and it has a text. -/
def usable (node : BrokerNode) : Bool :=
  (match node.metadata.get (cstr "$$count") with
    | some (.integer count) => decide (0 < count)
    | _ => true) && ((node.metadata.get (cstr "$$token")).bind Json.stringValue).isSome

/-- `get_token_node`. A token without its file leaves the map of its parent. -/
def getTokenNode (tokenId : CString) (check : TokenCheck) : Broker × Bool :=
  match σ.node.get (tokenId :: tokenRootNode) with
  | none => (σ, false)
  | some node =>
    if !usable node then (σ, false)
    else if check.file then (σ, check.hash)
    else (σ.removeNodes (tokenId :: tokenRootNode).isSuffixOf, false)

/-- The row of a node is made with the waiting link, if `/downstream` is listed; the node has the link only then. -/
def showWaiting (L : LinkId) (name : CString) : Broker :=
  match σ.listStream downstream with
  | none => σ
  | some s =>
    ((σ.setLink (name :: downstream) (some L)).updateListChild downstream (some s) name).setLink
      (name :: downstream) none

/-- The part of `broker_handshake_handle_conn` that uses a token. -/
def useToken (L : LinkId) (name dsId tokenId : CString) : Broker :=
  let p := name :: downstream
  let τ := (σ.downstreamNode name).setDownstreamMeta p (cstr "$$token") (some (.string tokenId))
  let τ := (τ.setDsId p (some dsId)).showWaiting L name
  let group := (τ.metadata (tokenId :: tokenRootNode)).get (cstr "$$group")
  let τ := if (group.bind Json.stringValue).isSome then τ.setDownstreamMeta p (cstr "$$group") group else τ
  τ.tokenUsed (tokenId :: tokenRootNode)

/-- `broker_handshake_handle_conn` with the name it has found. The link waits for its web socket. -/
def brokerHandshakeHandleConn (name dsId : CString) (linkData : Option Json)
    (token : Option (CString × TokenCheck)) : Broker :=
  let L := σ.link.next
  let waiting : Broker := { σ with link := σ.link.alloc ⟨name, false, none, linkData, .empty⟩ }
  match token with
  | none => waiting
  | some (tokenId, check) =>
    let found := waiting.getTokenNode tokenId check
    if found.2 then found.1.useToken L name dsId tokenId else { found.1 with link := found.1.link.free L }

/-- The action of a token node. -/
def deleteAction : CString × Metadata := (cstr "delete", nodeMetadata [(cstr "$invokable", .string (cstr "config"))])

/-- `add_token_invoke`, with the `meta` it collects, and `load_token_node` with what the file has. -/
def addTokenInvoke (name : CString) (metadata : Metadata) : Broker :=
  match σ.brokerNodeAdd tokenRootNode name metadata with
  | none => σ
  | some τ => τ.addAll (name :: tokenRootNode) [deleteAction]

/-- The deletion of rows by hand. The cache is the one found before the loop. -/
def deleteRow (s : Option ListStreamId) (name : CString) : Option Broker :=
  match s with
  | none => some σ
  | some s => (σ.stream.get s).map (fun _ => σ.patch s name none)

/-- The loop of `clear_managed_link`. -/
def clearManagedLoop (s : Option ListStreamId) (token ts : CString) : List CString → Broker → Option (Broker × List CString)
  | [], τ => some (τ, [])
  | name :: names, τ =>
    let p := name :: downstream
    if ((τ.metadata p).get (cstr "$$token")).bind Json.stringValue = some token then do
      let υ ← τ.brokerCloseLinkIfAny (τ.linkOf p) ts
      let υ ← (υ.setLink p none).deleteRow s name
      let (υ, gone) ← clearManagedLoop s token ts names υ
      some (υ, name :: gone)
    else clearManagedLoop s token ts names τ

/-- `clear_managed_link`. -/
def clearManagedLink (token ts : CString) : Option Broker := do
  let names := (σ.children downstream).map Prod.fst
  let (τ, gone) ← clearManagedLoop (σ.listStream downstream) token ts names σ
  some (τ.removeNodes (fun p => gone.any (fun name => (name :: downstream).isSuffixOf p)))

/-- `json_is_true`. -/
def isTrue : Option Json → Bool
  | some (.bool true) => true
  | _ => false

/-- The links that came with a token go if they are managed. -/
def clearIfManaged (name ts : CString) : Option Broker :=
  if isTrue ((σ.metadata (name :: tokenRootNode)).get (cstr "$$managed")) then σ.clearManagedLink name ts else some σ

/-- `delete_token_invoke` for the token node `name`. -/
def deleteTokenInvoke (name ts : CString) : Option Broker := do
  let τ ← σ.clearIfManaged name ts
  τ.brokerNodeFree tokenRootNode name

/-! ## Clearing, groups, brokers -/

/-- The nodes `clear_conns` removes. -/
def unlinked : List CString := ((σ.children downstream).filter (fun e => e.2.link.isNone)).map Prod.fst

/-- `clear_conns`. -/
def clearConns : Option Broker := do
  let τ ← σ.unlinked.foldlM (fun τ name => τ.deleteRow (σ.listStream downstream) name) σ
  some (τ.removeNodes (fun p => σ.unlinked.any (fun name => (name :: downstream).isSuffixOf p)))

/-- `update_group`. The link of the node is closed. -/
def updateGroup (name : CString) (group : Option CString) (ts : CString) : Option Broker := do
  let p := name :: downstream
  if (σ.node.get p).isNone then some σ
  else
    let τ := σ.setDownstreamMeta p (cstr "$$group") (group.map Json.string)
    let τ ← τ.brokerCloseLinkIfAny (τ.linkOf p) ts
    some (τ.setLink p none)

/-- The block of `broker_list_dslink_response` for a `$is` of "dsa/broker" on the root of the downstream node `p`. -/
def becomesBroker (p : Path) : Option Broker := do
  let node ← σ.node.get p
  match node.kind with
  | .regular _ => none
  | .downstream _ _ =>
    if (node.metadata.get (cstr "$is")).bind Json.stringValue = some (cstr "dsa/broker") then some σ
    else some (σ.setDownstreamMeta p (cstr "$is") (some (.string (cstr "dsa/broker"))))

/-! ## Upstream -/

/-- `create_upstream_node`. -/
def createUpstreamNode (name : CString) : Broker :=
  if (σ.node.get (name :: upstream)).isSome then σ
  else
    let τ := σ.brokerInitDownstreamNode upstream name
    τ.updateListChild upstream (τ.listStream upstream) name

/-- `init_upstream_node`, for the new link of a poll. -/
def initUpstreamNode (name dsId : CString) : Broker :=
  let L := σ.link.next
  let τ : Broker := { σ with link := σ.link.alloc ⟨name, true, some dsId, none, .empty⟩ }
  let τ := (τ.createUpstreamNode name).setDsId (name :: upstream) (some dsId)
  τ.brokerDSLinkConnect (name :: upstream) L

/-- A node of a setting in `/sys/upstream`. -/
def propMetadata (type : String) : Metadata :=
  nodeMetadata [(cstr "$writable", .string (cstr "write")), (cstr "$type", .string (cstr type))]

/-- The nodes below a node of `/sys/upstream`. -/
def upstreamProps : List (CString × Metadata) :=
  [(cstr "name", propMetadata "string"), (cstr "brokerName", propMetadata "string"), (cstr "url", propMetadata "string"),
   (cstr "token", propMetadata "string"), (cstr "group", propMetadata "string"), (cstr "enabled", propMetadata "bool"),
   deleteAction]

/-- `add_upstream_invoke`. -/
def addUpstreamInvoke (name : CString) : Broker :=
  match σ.brokerNodeAdd sysUpstream name (nodeMetadata []) with
  | none => σ
  | some τ => (τ.addAll (name :: sysUpstream) upstreamProps).createUpstreamNode name

/-- `delete_upstream_invoke`; the link is the one of the poll. -/
def deleteUpstreamInvoke (name : CString) (poll : Option LinkId) (ts : CString) : Option Broker := do
  let τ ← σ.brokerCloseLinkIfAny poll ts
  τ.brokerNodeFree sysUpstream name

end Broker

/-! ## Events -/

/-- What the broker reacts to. -/
inductive Event
  | list (L : LinkId) (p : Path) (rid : Nat)
  | close (L : LinkId) (rid : Nat)
  | fileOther (L : LinkId) (rid : Nat)
  | setAttribute (p : Path) (name : CString) (value : Option Json)
  | addNode (p : Path) (name : CString)
  | createDynamic (names : List CString)
  | deleteNode (parent : Path) (name : CString)
  | conn (name dsId : CString) (linkData : Option Json) (token : Option (CString × Broker.TokenCheck))
  | ws (L : LinkId) (dsId ts : CString)
  | closeLink (L : LinkId) (ts : CString)
  | addToken (name : CString) (metadata : Metadata)
  | deleteToken (name ts : CString)
  | clearConns
  | updateGroup (name : CString) (group : Option CString) (ts : CString)
  | becomesBroker (p : Path)
  | upstreamLink (name dsId : CString)
  | addUpstream (name : CString)
  | deleteUpstream (name : CString) (poll : Option LinkId) (ts : CString)

/-- A path that starts with "/data". -/
def startsWithData (names : List CString) : Bool := names.head?.any (cstr "data").isPrefixOf

/-- One event. `none` is an access to what is not there, or an event that does not occur: the actions on data nodes
    stand below `/data`, and only there are nodes created from a path. -/
def step (σ : Broker) : Event → Option Broker
  | .list L p rid => σ.brokerListSelf L p rid
  | .close L rid => σ.brokerMsgHandleClose L rid
  | .fileOther L rid => some (σ.fileOther L rid)
  | .setAttribute p name value => σ.setAttribute p name value
  | .addNode p name => if [cstr "data"].isSuffixOf p then some (σ.onAddNodeInvoked p name) else none
  | .createDynamic names => if startsWithData names then some (σ.brokerCreateDynamicDataNode [] names) else none
  | .deleteNode parent name => if [cstr "data"].isSuffixOf parent then σ.onDeleteNodeInvoked parent name else none
  | .conn name dsId linkData token => some (σ.brokerHandshakeHandleConn name dsId linkData token)
  | .ws L dsId ts => σ.brokerHandshakeHandleWs L dsId ts
  | .closeLink L ts => σ.brokerCloseLink L ts
  | .addToken name metadata => some (σ.addTokenInvoke name metadata)
  | .deleteToken name ts => σ.deleteTokenInvoke name ts
  | .clearConns => σ.clearConns
  | .updateGroup name group ts => σ.updateGroup name group ts
  | .becomesBroker p => σ.becomesBroker p
  | .upstreamLink name dsId => some (σ.initUpstreamNode name dsId)
  | .addUpstream name => some (σ.addUpstreamInvoke name)
  | .deleteUpstream name poll ts => σ.deleteUpstreamInvoke name poll ts

/-- The broker once it has started: nobody lists anything and no link is there. -/
def Start (σ : Broker) : Prop := ∀ p node, σ.node.get p = some node → node.listStream = none ∧ node.link = none

/-- A node of the start, with its profile. -/
def startNode (profile : String) (members : List (CString × Json)) : BrokerNode :=
  ⟨members.foldl (fun metadata e => metadata.set e.1 e.2)
    (AssocMap.empty.set (cstr "$is") (.string (cstr profile))), .regular none⟩

/-- The nodes of `broker_init` that the handlers name. -/
def brokerInit : Broker where
  node := [([], startNode "dsa/broker" [(cstr "$downstream", .string (cstr "/downstream"))]),
    ([cstr "sys"], startNode "static" []), (upstream, startNode "static" []), ([cstr "data"], startNode "node" []),
    (downstream, startNode "node" []), ([cstr "tokens", cstr "sys"], startNode "node" []),
    (tokenRootNode, startNode "node" []), (sysUpstream, startNode "node" [])].foldl
      (fun nodes e => nodes.set e.1 e.2) .empty
  stream := .empty
  link := .empty

end DSLink.LocalList
