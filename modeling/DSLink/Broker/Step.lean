import DSLink.Lib.Run
import DSLink.Broker.Data

/-!
# `Broker.Step` — the broker as a state machine

The broker is single threaded: each callback of its event loop runs one of the handlers to its end. An
`Event` is the call of a handler with its arguments and `step` runs it. A step that is undefined behaviour of
the source, or whose caller does not exist, has no result.
-/

namespace DSLink

variable {J : Type}

namespace Broker

/-- `broker_init` up to the stored nodes: the root and its children, with the actions of `/data`. -/
def brokerInit : Option (Broker J) := do
  let root : BrokerNode J := ⟨[slash], [], none, .empty, none, none, none⟩
  let σ : Broker J :=
    { sub := .empty, stream := .empty, node := Heap.empty.alloc root, dnode := .empty, root := 0,
      upstream := 0, downstream := 0, data := 0, localPendingSub := .empty, remotePendingSub := .empty,
      storage := .empty, published := [] }
  let (σ, _) ← σ.brokerNodeAdd 0 (cstr "sys")
  let (σ, upstream) ← σ.brokerNodeAdd 0 (cstr "upstream")
  let (σ, data) ← σ.brokerNodeAdd 0 (cstr "data")
  let (σ, _) ← σ.addAction (← data) (cstr "addNode") .addNode
  let (σ, _) ← σ.addAction (← data) (cstr "addValue") .addValue
  let (σ, _) ← σ.addAction (← data) (cstr "publish") .publish
  let (σ, downstream) ← σ.brokerNodeAdd 0 (cstr "downstream")
  let (σ, _) ← σ.brokerNodeAdd 0 (cstr "defs")
  some { σ with upstream := ← upstream, data := ← data, downstream := ← downstream }

end Broker

/-- The handlers of the broker with their arguments. -/
inductive Event (J : Type)
  | initDownstream (name : CString)
  | initUpstream (name : CString)
  | connect (d : DownId)
  | closeLink (d : DownId)
  | removeLink (d : DownId)
  | subscribe (d : DownId) (sub : SubscribeEntry) (now : J)
  | unsubscribe (d : DownId) (sid : Int)
  | ack (d : DownId) (ack : Int)
  | update (s : SubId) (row : Row J)
  | streamUpdate (st : StreamId) (row : Row J)
  | sendOther (d : DownId)
  | addLocal (parent : NodeId) (name : CString)
  | freeLocal (n : NodeId)
  | nodeValue (n : NodeId) (value now : J)
  | invoke (n : NodeId) (name : Option CString) (now : J)
  | publish (path : CString) (value now : J)
  | set (path : CString) (value now : J)

namespace Broker

/-- The handlers that a link calls need one. -/
def onLink (σ : Broker J) (d : DownId) (f : Option (Broker J)) : Option (Broker J) := do
  let node ← σ.dnode.get d
  if node.link.isSome then f else none

/-- A callback of an action node. -/
def invokeAction (cfg : Config) (σ : Broker J) (n : NodeId) (name : Option CString) (now : J) :
    Option (Broker J) := do
  let node ← σ.node.get n
  let action ← node.onInvoke
  match action with
  | .addNode => σ.onAddNodeInvoked cfg n name now
  | .addValue => σ.onAddValueInvoked cfg n name now
  | .deleteNode => σ.onDeleteNodeInvoked n
  | .publish => none

/-- A name that is looked up before a downstream node is created for it. -/
def initNode (σ : Broker J) (parent : NodeId) (name : CString) : Option (Broker J) := do
  let node ← σ.node.get parent
  match node.children.get name with
  | some _ => some σ
  | none => do
    let (σ, _) ← σ.brokerInitDownstreamNode parent name
    some σ

/-- One callback of the event loop. -/
def step (cfg : Config) (σ : Broker J) : Event J → Option (Broker J)
  | .initDownstream name => σ.initNode σ.downstream name
  | .initUpstream name => σ.initNode σ.upstream name
  | .connect d => do
    let node ← σ.dnode.get d
    if node.link.isSome then none else σ.brokerDslinkConnect cfg d
  | .closeLink d => σ.onLink d (σ.brokerCloseLink d)
  | .removeLink d => do
    let node ← σ.dnode.get d
    if node.link.isSome then none else σ.freeDownstreamNode d
  | .subscribe d sub now => σ.onLink d (σ.handleSubscribe cfg d sub now)
  | .unsubscribe d sid => σ.onLink d (σ.handleUnsubscribe d (toU32 sid))
  | .ack d ack => σ.onLink d (checkSubscriptionAck cfg σ d (toU32 ack))
  | .update s row => brokerUpdateSubReq cfg σ s row
  | .streamUpdate st row => brokerUpdateSubStream cfg σ st row
  | .sendOther d => do
    let node ← σ.dnode.get d
    let node ← node.wsSend .other
    some (σ.modDnode d (fun _ => node))
  | .addLocal parent name => do
    let (σ, _) ← σ.brokerNodeAdd parent name
    some σ
  | .freeLocal n => σ.brokerNodeFree (.regular n)
  | .nodeValue n value now => σ.brokerNodeUpdateValue cfg n value now
  | .invoke n name now => σ.invokeAction cfg n name now
  | .publish path value now => σ.onPublishContinuousInvoked cfg path value now
  | .set path value now => σ.brokerMsgHandleSet cfg path value now

/-- The two smallest limits. -/
def smallConfig : Config := ⟨8, 16, by decide, by decide, by decide, by decide⟩

/-- A subscribe entry with permission to read. -/
def readEntry (path : String) (sid qos : Int) : SubscribeEntry := ⟨some (cstr path), some sid, some qos, .read⟩

/-- The broker starts without clients. -/
theorem brokerInit_empty {σ : Broker J} (h : brokerInit = some σ) :
    σ.sub = .empty ∧ σ.dnode = .empty ∧ σ.stream = .empty ∧ σ.localPendingSub = .empty ∧
      σ.remotePendingSub = .empty ∧ σ.published = [] := by
  have hinit : (brokerInit (J := J)).map (fun σ => (σ.sub, σ.dnode, σ.stream, σ.localPendingSub,
      σ.remotePendingSub, σ.published)) = some (.empty, .empty, .empty, .empty, .empty, []) := rfl
  rw [h] at hinit
  simpa using hinit

/-- A broker that was just started, with an empty log. -/
def started : Option (Broker J × List (Event J)) := brokerInit.map (fun σ => (σ, []))

end Broker

end DSLink
