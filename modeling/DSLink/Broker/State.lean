import DSLink.Lib.Heap
import DSLink.Lib.AssocMap
import DSLink.Col.Ringbuffer
import DSLink.Col.Vector

/-!
# `Broker.State` — the records the subscription code of the broker works on

One heap for each kind of object that is linked by pointers: `SubRequester`, `BrokerSubStream`, `BrokerNode`
and `DownstreamNode`. A pointer is a heap address, a NULL pointer is `none`. Every record has the source's
fields that the subscription code reads or writes. A `RemoteDSLink` is reached through its node only and
lives and dies with `node->link`, so it is stored there.

`J` is the type of a JSON value the broker passes on. A value row `[sid, value, ts, ...]` is the list of its
elements after the first one: the broker overwrites element 0 with the receiver's sid whenever it sends a row.

Three fields record the past and are read by no function: `RemoteDSLink.sent`, `PendingAck.frame` and
`Broker.published`.
-/

namespace DSLink

/-- A NUL-terminated C string as its bytes. -/
abbrev CString := List UInt8

/-- Comparing texts decides their equality; one instance for the membership tests of all modules. -/
instance CString.lawfulBEq : LawfulBEq CString := List.instLawfulBEq

/-- An ASCII literal of the source. -/
def cstr (s : String) : CString := s.toList.map (fun c => c.toNat.toUInt8)

/-- A property of all bytes, tried on each of them. -/
theorem forall_byte {P : UInt8 → Prop} (h : ∀ n < 256, P (UInt8.ofNat n)) (c : UInt8) : P c := by
  have := h c.toNat c.toNat_lt
  rwa [UInt8.ofNat_toNat] at this

/-- The byte `'/'`. -/
def slash : UInt8 := 47

abbrev SubId := Nat
abbrev StreamId := Nat
abbrev NodeId := Nat
abbrev DownId := Nat

/-- A value row without its first element. -/
abbrev Row (J : Type) := List J

/-- The sid of a SubRequester whose requester is away, `0xFFFFFFFF`. -/
def noSid : Nat := 4294967295

/-- `(uint32_t) json_integer_value(x)`. -/
def toU32 (x : Int) : Nat := (x % 4294967296).toNat

/-- `(uint8_t) json_integer_value(x)`. -/
def toU8 (x : Int) : Nat := (x % 256).toNat

/-- `--n` on a `uint32_t` counter. -/
def dec32 (n : Nat) : Nat := sub32 n 1

/-- The two queue limits of `config.c`, within the bounds that `broker_config_load` gives each of them. -/
structure Config where
  brokerMaxWsSendQueueSize : Nat
  brokerMaxQosQueueSize : Nat
  send_ge : 8 ≤ brokerMaxWsSendQueueSize
  send_le : brokerMaxWsSendQueueSize ≤ 1048575
  qos_ge : 16 ≤ brokerMaxQosQueueSize
  qos_le : brokerMaxQosQueueSize ≤ 1048575

/-- `PermissionLevel`. -/
inductive PermissionLevel
  | none | list | read | write | config | never
  deriving DecidableEq, Repr

/-- The number behind a `PermissionLevel`. -/
def PermissionLevel.toNat : PermissionLevel → Nat
  | .none => 0
  | .list => 1
  | .read => 2
  | .write => 3
  | .config => 4
  | .never => 5

/-! ## Links and their frames -/

/-- What the broker writes to a link. `sub` is the SubRequester a value message is sent for; it is not on
    the wire. -/
inductive OutMsg (J : Type)
  | updates (sub : SubId) (rows : List (Nat × Row J))
  | subscribe (rid : Nat) (path : CString) (sid qos : Nat)
  | unsubscribe (rid sid : Nat)
  | other

/-- A numbered message on the wire. -/
structure Frame (J : Type) where
  msgId : Nat
  obj : OutMsg J

/-- `RemoteDSLink`. `path` is NULL for the link of an upstream broker. `sent` lists all frames so far. -/
structure RemoteDSLink (J : Type) where
  path : Option CString
  msgId : Nat
  sent : List (Frame J)

/-- `PendingAck`. `frame` is the position of its message in `sent`. -/
structure PendingAck where
  subscription : SubId
  msgId : Nat
  frame : Nat

/-- `QueuedMessage`: `msgId` is 0 until the row is sent. -/
structure QueuedMessage (J : Type) where
  message : Row J
  msgId : Nat

/-! ## Subscriptions -/

/-- The pending list a `pendingNode` is linked into. -/
inductive PendingKey
  | localPendingSub (path : CString)
  | remotePendingSub (path : CString)
  deriving DecidableEq

/-- `SubRequester`. The cached `qosKey1` and `qosKey2` are recomputed where they are used. -/
structure SubRequester (J : Type) where
  path : CString
  reqNode : DownId
  stream : Option StreamId
  reqSid : Nat
  qos : Nat
  qosQueue : Option (List (Row J))
  pendingNode : Option PendingKey
  messageQueue : Option (Ringbuffer (QueuedMessage J))
  messageOutputQueueCount : Nat

/-- A pointer to a node, with the `type` its target carries. -/
inductive NodeRef
  | regular (n : NodeId)
  | downstream (d : DownId)
  deriving DecidableEq

/-- `BrokerSubStream`. `reqSubs` is keyed by the requester's node. -/
structure BrokerSubStream (J : Type) where
  respNode : NodeRef
  respSid : Nat
  respQos : Nat
  remotePath : Option CString
  lastValue : Option (Row J)
  reqSubs : AssocMap DownId SubId

/-! ## Nodes -/

/-- The `on_invoke` callbacks of the data actions. -/
inductive DataAction
  | addNode | addValue | deleteNode | publish
  deriving DecidableEq

/-- `BrokerNode` of type `REGULAR_NODE`. -/
structure BrokerNode (J : Type) where
  path : CString
  name : CString
  parent : Option NodeId
  children : AssocMap CString NodeRef
  subStream : Option StreamId
  onInvoke : Option DataAction
  value : Option J

/-- `DownstreamNode`, for links below `/downstream` and for upstream brokers. -/
structure DownstreamNode (J : Type) where
  path : CString
  name : CString
  parent : Option NodeId
  link : Option (RemoteDSLink J)
  rid : Nat
  sid : Nat
  respSubStreams : AssocMap CString StreamId
  respSubSids : AssocMap Nat StreamId
  reqSubPaths : AssocMap CString SubId
  reqSubSids : AssocMap Nat SubId
  pendingAcks : Option (Vec PendingAck)

/-- `Broker` with everything reachable from it. `storage` is the content of the stored QoS files by their
    two keys: the qos and, unless it was NULL, the queue. `published` lists every call of
    `broker_update_sub_req`. -/
structure Broker (J : Type) where
  sub : Heap (SubRequester J)
  stream : Heap (BrokerSubStream J)
  node : Heap (BrokerNode J)
  dnode : Heap (DownstreamNode J)
  root : NodeId
  upstream : NodeId
  downstream : NodeId
  data : NodeId
  localPendingSub : AssocMap CString (List SubId)
  remotePendingSub : AssocMap CString (List SubId)
  storage : AssocMap (CString × CString) (Nat × Option (List (Row J)))
  published : List (SubId × Row J)

namespace Broker

variable {J : Type}

/-- Rewrite the SubRequester at `s`. -/
def modSub (σ : Broker J) (s : SubId) (f : SubRequester J → SubRequester J) : Broker J :=
  { σ with sub := σ.sub.modify s f }

/-- Rewrite the stream at `st`. -/
def modStream (σ : Broker J) (st : StreamId) (f : BrokerSubStream J → BrokerSubStream J) : Broker J :=
  { σ with stream := σ.stream.modify st f }

/-- Rewrite the local node at `n`. -/
def modNode (σ : Broker J) (n : NodeId) (f : BrokerNode J → BrokerNode J) : Broker J :=
  { σ with node := σ.node.modify n f }

/-- Rewrite the downstream node at `d`. -/
def modDnode (σ : Broker J) (d : DownId) (f : DownstreamNode J → DownstreamNode J) : Broker J :=
  { σ with dnode := σ.dnode.modify d f }

end Broker

end DSLink
