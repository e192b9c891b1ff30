import DSLink.Broker.Footprint

/-!
# `Broker.Calls` — every handler as a sequence of basic calls

`Call` names the functions of the model that the handlers are put together from, and `Call.run` runs one of
them. A handler runs a sequence of them: `Calls cfg A σ σ'` says that calls out of `A` lead from `σ` to `σ'`.
An invariant over all handlers is then one case for each kind of call.

## Contents
- `Call`, `Call.run`, `Calls` with its rules.
- `Call.parts`, `Calls.frame`: the frame of a sequence from the frames of its calls.
- One lemma `Calls.f` for each function `f` that is a sequence of calls, up to the handlers.
-/

namespace DSLink

variable {J : Type} {cfg : Config} {σ σ' : Broker J}

/-- The calls a handler is a sequence of. -/
inductive Call (J : Type)
  | update (s : SubId) (row : Row J)
  | sendQueued (s : SubId)
  | flush (s : SubId)
  | subQos (s : SubId) (qos : Nat)
  | streamQos (st : StreamId)
  | setValue (st : StreamId) (row : Row J)
  | ack (d : DownId) (k : Nat)
  | pendLocal (path : CString) (s : SubId)
  | pendRemote (path : CString) (s : SubId)
  | dropLocal (path : CString)
  | dropRemote (path : CString)
  | unlist (subs : List SubId)
  | newLocalStream (n : NodeId)
  | newRemoteStream (d : DownId) (path : CString)
  | attach (s : SubId) (st : StreamId)
  | freeStream (st : StreamId)
  | newSub (d : DownId) (path : CString) (sid qos : Nat)
  | rekey (d : DownId) (s : SubId) (sid : Nat)
  | forget (d : DownId) (sid : Nat)
  | freeSub (s : SubId)
  | newNode (parent : NodeId) (name : CString)
  | newDnode (parent : NodeId) (name : CString)
  | setAction (n : NodeId) (action : DataAction)
  | setNodeValue (n : NodeId) (value : J)
  | orphan (ref : NodeRef)
  | dropNode (n : NodeId) (parent : Option NodeId) (name : CString)
  | dropDnode (d : DownId)
  | sendSubscribe (d : DownId) (path : CString) (sid qos : Nat)
  | sendOther (d : DownId)
  | openLink (d : DownId)
  | closeLink (d : DownId)

namespace Broker

/-- A new SubRequester with its two index entries. -/
def newSub (σ : Broker J) (d : DownId) (path : CString) (sid qos : Nat) : Option (Broker J) := do
  let s := σ.sub.next
  let σ := { σ with sub := σ.sub.alloc (brokerCreateSubRequester d path sid qos none) }
  let σ ← serializeIf σ (2 < qos) s false
  some (σ.modDnode d (fun node =>
    { node with reqSubPaths := node.reqSubPaths.set path s, reqSubSids := node.reqSubSids.set sid s }))

/-- A frame that is none of the broker's own. -/
def sendOther (σ : Broker J) (d : DownId) : Option (Broker J) := do
  let node ← σ.dnode.get d
  let node ← node.wsSend .other
  some (σ.modDnode d (fun _ => node))

/-- The start of `broker_dslink_connect`. -/
def openLink (σ : Broker J) (d : DownId) : Option (Broker J) := do
  let node ← σ.dnode.get d
  if node.link.isSome then none
  else some (σ.modDnode d (fun node' => { node' with link := some ⟨σ.linkPath node, 0, []⟩ }))

/-- A child that is cut off its parent. -/
def orphan (σ : Broker J) (ref : NodeRef) : Broker J :=
  match ref with
  | .regular n => σ.modNode n (fun node => { node with parent := none })
  | .downstream d => σ.modDnode d (fun node => { node with parent := none })

/-- The end of `broker_node_free` on a local node. -/
def dropNode (σ : Broker J) (n : NodeId) (parent : Option NodeId) (name : CString) : Option (Broker J) := do
  let σ ← σ.leaveParent parent name
  some { σ with node := σ.node.free n }

end Broker

open Broker

/-- Run a call. -/
def Call.run (cfg : Config) (σ : Broker J) : Call J → Option (Broker J)
  | .update s row => brokerUpdateSubReq cfg σ s row
  | .sendQueued s => sendQueuedMessages cfg σ s
  | .flush s => brokerUpdateSubReqQos σ s
  | .subQos s qos => brokerUpdateSubQos σ s qos
  | .streamQos st => brokerUpdateStreamQos σ (some st)
  | .setValue st row => some (σ.modStream st (fun stream => { stream with lastValue := some row }))
  | .ack d k => checkSubscriptionAck cfg σ d k
  | .pendLocal path s => some (σ.brokerSubscribeLocalNonexistent path s)
  | .pendRemote path s => σ.brokerSubscribeDisconnectedRemote path s
  | .dropLocal path => some { σ with localPendingSub := σ.localPendingSub.erase path }
  | .dropRemote path => some { σ with remotePendingSub := σ.remotePendingSub.erase path }
  | .unlist subs => some (σ.subsListFree subs)
  | .newLocalStream n => some (σ.initLocalStream n).1
  | .newRemoteStream d path => (σ.dnode.get d).map (fun node => (σ.initRemoteStream d node path).1)
  | .attach s st => (σ.sub.get s).map (fun req => σ.attach s st req.reqNode)
  | .freeStream st => σ.brokerStreamFree st
  | .newSub d path sid qos => σ.newSub d path sid qos
  | .rekey d s sid => σ.rekey d s sid
  | .forget d sid => some (σ.modDnode d (fun node => { node with reqSubSids := node.reqSubSids.erase sid }))
  | .freeSub s => σ.brokerFreeSubRequester s
  | .newNode parent name => (σ.brokerNodeAdd parent name).map Prod.fst
  | .newDnode parent name => (σ.brokerInitDownstreamNode parent name).map Prod.fst
  | .setAction n action => some (σ.modNode n (fun node => { node with onInvoke := some action }))
  | .setNodeValue n value => some (σ.modNode n (fun node => { node with value := some value }))
  | .orphan ref => some (σ.orphan ref)
  | .dropNode n parent name => σ.dropNode n parent name
  | .dropDnode d => σ.freeDownstreamNode d
  | .sendSubscribe d path sid qos => sendSubscribeRequest σ d path sid qos
  | .sendOther d => σ.sendOther d
  | .openLink d => σ.openLink d
  | .closeLink d => σ.brokerCloseLink d

/-- Calls out of `A` lead from `σ` to `σ'`. -/
def Calls (cfg : Config) (A : Call J → Prop) (σ σ' : Broker J) : Prop :=
  Reach (Call.run cfg) (fun _ c => A c) (· = σ) σ'

namespace Calls

variable {A B : Call J → Prop} {τ : Broker J}

theorem refl (σ : Broker J) : Calls cfg A σ σ := .start rfl

theorem trans (h : Calls cfg A σ τ) (h' : Calls cfg A τ σ') : Calls cfg A σ σ' := Reach.trans h h'

theorem mono (h : Calls cfg A σ σ') (hsub : ∀ c, A c → B c) : Calls cfg B σ σ' :=
  Reach.mono (fun _ c => hsub c) h

theorem one (c : Call J) (hc : A c) (h : c.run cfg σ = some σ') : Calls cfg A σ σ' := Reach.single hc h

/-- What every call keeps, a sequence of calls keeps. -/
theorem invariant (inv : Broker J → Prop) (h : Calls cfg A σ σ')
    (hs : ∀ σ c σ', inv σ → A c → c.run cfg σ = some σ' → inv σ') (h0 : inv σ) : inv σ' := by
  refine Reach.invariant inv (fun τ hτ => ?_) hs h
  rw [hτ]
  exact h0

theorem foldlM {α : Type} {f : Broker J → α → Option (Broker J)} {l : List α}
    (hf : ∀ σ, ∀ a ∈ l, ∀ σ', f σ a = some σ' → Calls cfg A σ σ') (h : l.foldlM f σ = some σ') :
    Calls cfg A σ σ' := by
  induction l generalizing σ with
  | nil => cases h; exact .refl _
  | cons a l ih =>
    simp only [List.foldlM_cons, Option.bind_eq_bind, Option.bind_eq_some_iff] at h
    obtain ⟨τ, hτ, h⟩ := h
    exact (hf _ a List.mem_cons_self _ hτ).trans (ih (fun σ b hb => hf σ b (List.mem_cons_of_mem _ hb)) h)

end Calls

/-! ## Building local nodes -/

/-- What a handler that builds local nodes does: a call, or placing what was pending for a node. -/
inductive Work (J : Type)
  | call (c : Call J)
  | pending (n : NodeId) (now : J)

/-- Run a piece of work. -/
def Work.run (cfg : Config) (σ : Broker J) : Work J → Option (Broker J)
  | .call c => c.run cfg σ
  | .pending n now => σ.handlePendingSub cfg n now

/-! ## The frame of a call -/

/-- The parts a call may change. -/
def Call.parts : Call J → List Part
  | .update .. => updateParts
  | .sendQueued .. | .ack .. => sendParts
  | .flush .. => [.link, .wire, .qosQueue, .storage]
  | .subQos .. => [.qos, .qosQueue, .storage, .values, .resp, .link]
  | .streamQos .. => [.values, .resp, .link]
  | .setValue .. => [.values]
  | .pendLocal .. | .pendRemote .. => [.place, .pending]
  | .dropLocal .. | .dropRemote .. => [.pending]
  | .unlist .. => [.place]
  | .newLocalStream .. => [.streams, .values, .subStream]
  | .newRemoteStream .. => [.streams, .values, .resp]
  | .attach .. => [.place, .streams]
  | .freeStream .. => streamFreeParts
  | .newSub .. => [.subs, .place, .sid, .qos, .qosQueue, .queue, .index, .storage]
  | .rekey .. => [.sid, .index]
  | .forget .. => [.index]
  | .freeSub .. => freeSubParts
  | .newNode .. | .setAction .. | .dropNode .. => nodeParts
  | .setNodeValue .. => [.nodeValue]
  | .newDnode .. | .dropDnode .. => dnodeParts
  | .orphan .. => [.nodes, .downs]
  | .sendSubscribe .. => [.resp, .link]
  | .sendOther .. => [.link]
  | .openLink .. => [.link, .wire]
  | .closeLink .. => .wire :: freeSubParts

namespace Broker.Frame

theorem newSub {d : DownId} {path : CString} {sid qos : Nat} (h : σ.newSub d path sid qos = some σ') :
    Frame [.subs, .place, .sid, .qos, .qosQueue, .queue, .index, .storage] σ σ' := by
  simp only [Broker.newSub, Option.bind_eq_bind, Option.bind_eq_some_iff] at h
  obtain ⟨τ, hτ, h⟩ := h
  obtain rfl := Option.some.inj h
  refine ((Frame.setSub σ _).mono (by decide)).trans (((Frame.serializeIf hτ).mono (by decide)).trans (.modDnode ?_))
  intro p hp n _
  cases p <;> simp_all [DownstreamNode.Agree, linkFrames]

theorem rekey {d : DownId} {s : SubId} {sid : Nat} (h : σ.rekey d s sid = some σ') :
    Frame [.sid, .index] σ σ' := by
  simp only [Broker.rekey, Option.bind_eq_bind, Option.bind_eq_some_iff] at h
  obtain ⟨req, -, h⟩ := h
  obtain rfl := Option.some.inj h
  refine Frame.trans (.modDnode ?_) (Frame.trans (.modSub ?_) (.modDnode ?_))
  · intro p hp n _
    cases p <;> simp_all [DownstreamNode.Agree, linkFrames]
  · intro p hp r
    cases p <;> simp_all [SubRequester.Agree]
  · intro p hp n _
    cases p <;> simp_all [DownstreamNode.Agree, linkFrames]

theorem forget (σ : Broker J) (d : DownId) (sid : Nat) : Frame [.index] σ
    (σ.modDnode d (fun node => { node with reqSubSids := node.reqSubSids.erase sid })) := by
  refine .modDnode ?_
  intro p hp n _
  cases p <;> simp_all [DownstreamNode.Agree, linkFrames]

theorem setValue (σ : Broker J) (st : StreamId) (row : Row J) : Frame [.values] σ
    (σ.modStream st (fun stream => { stream with lastValue := some row })) := by
  refine .modStream ?_
  intro p hp r
  cases p <;> simp_all [BrokerSubStream.Agree]

theorem initRemoteStream (σ : Broker J) (d : DownId) (node : DownstreamNode J) (path : CString) :
    Frame [.streams, .values, .resp] σ (σ.initRemoteStream d node path).1 := by
  refine ((Frame.setStream σ _).mono (by decide)).trans (.modDnode ?_)
  intro p hp n _
  cases p <;> simp_all [DownstreamNode.Agree, linkFrames]

theorem setAction (σ : Broker J) (n : NodeId) (action : DataAction) : Frame nodeParts σ
    (σ.modNode n (fun node => { node with onInvoke := some action })) := by
  refine .modNode ?_
  intro p hp r
  cases p <;> simp_all [BrokerNode.Agree]

theorem setNodeValue (σ : Broker J) (n : NodeId) (value : J) : Frame [.nodeValue] σ
    (σ.modNode n (fun node => { node with value := some value })) := by
  refine .modNode ?_
  intro p hp r
  cases p <;> simp_all [BrokerNode.Agree]

theorem orphan (σ : Broker J) (ref : NodeRef) : Frame [.nodes, .downs] σ (σ.orphan ref) := by
  cases ref with
  | regular n =>
    refine .modNode ?_
    intro p hp r
    cases p <;> simp_all [BrokerNode.Agree]
  | downstream d =>
    refine .modDnode ?_
    intro p hp n _
    cases p <;> simp_all [DownstreamNode.Agree, linkFrames]

theorem dropNode {n : NodeId} {parent : Option NodeId} {name : CString}
    (h : σ.dropNode n parent name = some σ') : Frame nodeParts σ σ' := by
  simp only [Broker.dropNode, Option.bind_eq_bind, Option.bind_eq_some_iff] at h
  obtain ⟨τ, hτ, h⟩ := h
  obtain rfl := Option.some.inj h
  exact ((Frame.leaveParent hτ).mono (by decide)).trans ((Frame.setNode _ _).mono (by decide))

theorem sendOther {d : DownId} (h : σ.sendOther d = some σ') : Frame [.link] σ σ' := by
  simp only [Broker.sendOther, DownstreamNode.wsSend, Option.bind_eq_bind, Option.bind_eq_some_iff,
    Option.map_eq_some_iff] at h
  obtain ⟨node, hnode, node', ⟨link, hlink, rfl⟩, h⟩ := h
  obtain rfl := Option.some.inj h
  refine .modDnode ?_
  intro p hp n hn
  cases hnode.symm.trans hn
  cases p <;> simp_all [DownstreamNode.Agree, linkFrames, wireRows_wsSendObj, frameRows]

theorem openLink {d : DownId} (h : σ.openLink d = some σ') : Frame [.link, .wire] σ σ' := by
  simp only [Broker.openLink, Option.bind_eq_bind, Option.bind_eq_some_iff] at h
  obtain ⟨node, -, h⟩ := h
  split at h
  · cases h
  · obtain rfl := Option.some.inj h
    refine .modDnode ?_
    intro p hp n _
    cases p <;> simp_all [DownstreamNode.Agree]

end Broker.Frame

theorem Call.frame {c : Call J} (h : c.run cfg σ = some σ') : Broker.Frame c.parts σ σ' := by
  cases c with
  | update => exact .brokerUpdateSubReq h
  | sendQueued => exact .sendQueuedMessages h
  | flush => exact .brokerUpdateSubReqQos h
  | subQos => exact .brokerUpdateSubQos h
  | streamQos st => exact .brokerUpdateStreamQos (show brokerUpdateStreamQos σ (some st) = some σ' from h)
  | setValue => obtain rfl := Option.some.inj h; exact .setValue _ _ _
  | ack => exact .checkSubscriptionAck h
  | pendLocal => obtain rfl := Option.some.inj h; exact .brokerSubscribeLocalNonexistent _ _ _
  | pendRemote => exact .brokerSubscribeDisconnectedRemote h
  | dropLocal => obtain rfl := Option.some.inj h; exact .setPending _ _ _
  | dropRemote => obtain rfl := Option.some.inj h; exact .setPending _ _ _
  | unlist => obtain rfl := Option.some.inj h; exact .subsListFree _ _
  | newLocalStream => obtain rfl := Option.some.inj h; exact .initLocalStream _ _
  | newRemoteStream =>
    obtain ⟨node, -, rfl⟩ := Option.map_eq_some_iff.mp h
    exact .initRemoteStream _ _ _ _
  | attach =>
    obtain ⟨req, -, rfl⟩ := Option.map_eq_some_iff.mp h
    exact .attach _ _ _ _
  | freeStream => exact .brokerStreamFree h
  | newSub => exact .newSub h
  | rekey => exact .rekey h
  | forget => obtain rfl := Option.some.inj h; exact .forget _ _ _
  | freeSub => exact .brokerFreeSubRequester h
  | newNode =>
    obtain ⟨⟨τ, r⟩, hτ, rfl⟩ := Option.map_eq_some_iff.mp h
    exact .brokerNodeAdd hτ
  | newDnode =>
    obtain ⟨⟨τ, r⟩, hτ, rfl⟩ := Option.map_eq_some_iff.mp h
    exact .brokerInitDownstreamNode hτ
  | setAction => obtain rfl := Option.some.inj h; exact .setAction _ _ _
  | setNodeValue => obtain rfl := Option.some.inj h; exact .setNodeValue _ _ _
  | orphan => obtain rfl := Option.some.inj h; exact .orphan _ _
  | dropNode => exact .dropNode h
  | dropDnode => exact .freeDownstreamNode h
  | sendSubscribe => exact .sendSubscribeRequest h
  | sendOther => exact .sendOther h
  | openLink => exact .openLink h
  | closeLink => exact .brokerCloseLink h

/-- The frame of a sequence of calls. -/
theorem Calls.frame {A : Call J → Prop} {ps : List Part} (h : Calls cfg A σ σ')
    (hps : ∀ c, A c → ∀ p ∈ c.parts, p ∈ ps) : Broker.Frame ps σ σ' :=
  Calls.invariant (fun τ => Broker.Frame ps σ τ) h
    (fun _ c _ hf hc hrun => hf.trans ((Call.frame hrun).mono (hps c hc))) (.refl _ _)

/-! ## Kinds of calls -/

/-- Value rows go to subscribers. -/
def Call.updates : Call J → Prop
  | .update .. | .setValue .. => True
  | _ => False

/-- A SubRequester is put into a stream or a pending list. -/
def Call.places : Call J → Prop
  | .update .. | .setValue .. | .newLocalStream .. | .newRemoteStream .. | .attach .. | .streamQos ..
  | .pendLocal .. | .pendRemote .. => True
  | _ => False

/-- Nodes and their streams go away. -/
def Call.removes : Call J → Prop
  | .freeStream .. | .orphan .. | .dropNode .. | .dropDnode .. => True
  | _ => False

/-- A local node is added or removed, gets a value, or takes what was pending for it. -/
def Call.builds : Call J → Prop
  | .newNode .. | .setAction .. | .setNodeValue .. | .dropLocal .. | .unlist .. | .update .. | .setValue ..
  | .newLocalStream .. | .attach .. | .freeStream .. | .orphan .. | .dropNode .. | .dropDnode ..
  | .sendOther .. => True
  | _ => False

/-- What a call adds to the tree has a name out of `N`. -/
def Call.names (N : CString → Prop) : Call J → Prop
  | .newNode _ name | .newDnode _ name => N name
  | _ => True

/-- A call that builds, with names out of `N`. -/
def Call.buildsNamed (N : CString → Prop) (c : Call J) : Prop := c.builds ∧ c.names N

theorem Call.removes.builds {c : Call J} (h : c.removes) : c.builds := by
  cases c <;> simp [Call.removes] at h <;> simp [Call.builds]

/-- A call that builds and puts no SubRequester anywhere. -/
def Call.raises : Call J → Prop
  | .newNode .. | .setAction .. | .setNodeValue .. | .update .. | .setValue .. | .freeStream .. | .orphan ..
  | .dropNode .. | .dropDnode .. | .sendOther .. => True
  | _ => False

theorem Call.removes.raisesNamed {N : CString → Prop} {c : Call J} (h : c.removes) : c.raises ∧ c.names N := by
  cases c <;> simp [Call.removes] at h <;> simp [Call.raises, Call.names]

/-- Work that adds nodes with names out of `N` only. -/
def Work.named (N : CString → Prop) : Work J → Prop
  | .call c => c.raises ∧ c.names N
  | .pending .. => True

/-- The requester `d` subscribes under `sid`, which nobody else has any more. -/
def Call.subscribes (d : DownId) (sid : Nat) : Call J → Prop
  | .rekey d' _ sid' | .newSub d' _ sid' _ => d' = d ∧ sid' = sid
  | .subQos .. | .flush .. | .sendQueued .. => True
  | .update .. | .setValue .. | .newLocalStream .. | .newRemoteStream .. | .attach .. | .streamQos ..
  | .pendLocal .. | .pendRemote .. => True
  | _ => False

/-- The link of `d` comes up. -/
def Call.connects (d : DownId) : Call J → Prop
  | .openLink d' | .sendSubscribe d' .. => d' = d
  | .dropRemote .. | .unlist .. | .newRemoteStream .. | .attach .. | .streamQos .. | .update .. => True
  | _ => False

namespace Broker

/-! ## Functions as sequences of calls -/

theorem brokerUpdateSubStream_calls {st : StreamId} {row : Row J}
    (h : brokerUpdateSubStream cfg σ st row = some σ') : Calls cfg Call.updates σ σ' := by
  simp only [brokerUpdateSubStream, brokerUpdateSubReqs, Option.bind_eq_bind, Option.bind_eq_some_iff] at h
  obtain ⟨stream, -, stream', -, h⟩ := h
  refine (Calls.one (.setValue st row) trivial rfl).trans ?_
  split at h
  · cases h; exact .refl _
  · exact .foldlM (fun σ s _ σ' h => .one (.update s _) trivial h) h

theorem sendLastValue_calls {s : SubId} {st : StreamId} (h : sendLastValue cfg σ s st = some σ') :
    σ' = σ ∨ ∃ row, brokerUpdateSubReq cfg σ s row = some σ' := by
  simp only [sendLastValue, Option.bind_eq_bind, Option.bind_eq_some_iff] at h
  obtain ⟨stream, -, h⟩ := h
  split at h
  · exact Or.inl (Option.some.inj h).symm
  · exact Or.inr ⟨_, h⟩

/-! ### Placing a SubRequester -/

/-- Attaching with the requester that was read before the stream was made. -/
theorem attach_call {ps : List Part} (hf : Frame ps σ σ') (hps : Part.subs ∉ ps) {s : SubId} {st : StreamId}
    {req : SubRequester J} (hs : σ.sub.get s = some req) :
    Call.run cfg σ' (.attach s st) = some (σ'.attach s st req.reqNode) := by
  obtain ⟨req', hs', hpath, hnode⟩ := hf.sub hps (by simp) hs
  simp [Call.run, hs', hnode]

theorem localStream_calls {n : NodeId} {node : BrokerNode J} {now : J} {st : StreamId}
    (h : σ.localStream cfg n node now = some (σ', st)) :
    Calls cfg (fun c => c.places ∧ c.builds) σ σ' := by
  unfold localStream at h
  split at h
  · cases h; exact .refl _
  · cases h; exact .one (.newLocalStream n) ⟨trivial, trivial⟩ rfl
  · simp only [Option.map_eq_some_iff, Prod.mk.injEq] at h
    obtain ⟨τ, hτ, rfl, -⟩ := h
    refine (Calls.one (.newLocalStream n) ⟨trivial, trivial⟩ rfl).trans ?_
    exact (brokerUpdateSubStream_calls hτ).mono
      (fun c => by cases c <;> simp [Call.updates, Call.places, Call.builds])

theorem brokerHandleLocalSubscribe_calls {n : NodeId} {s : SubId} {now : J}
    (h : σ.brokerHandleLocalSubscribe cfg n s now = some σ') :
    Calls cfg (fun c => c.places ∧ c.builds) σ σ' := by
  simp only [brokerHandleLocalSubscribe, Option.bind_eq_bind, Option.bind_eq_some_iff] at h
  obtain ⟨node, -, req, hs, ⟨τ, st⟩, hτ, h⟩ := h
  refine (localStream_calls hτ).trans ?_
  refine (Calls.one (.attach s st) ⟨trivial, trivial⟩
    (attach_call (Frame.localStream hτ) (by decide) hs)).trans ?_
  rcases sendLastValue_calls h with rfl | ⟨row, h⟩
  · exact .refl _
  · exact .one (.update s row) ⟨trivial, trivial⟩ h

theorem brokerSubscribeRemote_calls {d : DownId} {s : SubId} {respPath : CString}
    (h : σ.brokerSubscribeRemote cfg d s respPath = some σ') :
    Calls cfg (fun c => c.places ∧ ∀ d', c.connects d') σ σ' := by
  simp only [brokerSubscribeRemote, Option.bind_eq_bind, Option.bind_eq_some_iff] at h
  obtain ⟨node, hd, req, hs, τ, hτ, h⟩ := h
  have hstream : Calls cfg (fun c => c.places ∧ ∀ d', c.connects d') σ (σ.remoteStream d node respPath).1 := by
    unfold remoteStream
    split
    · exact .refl _
    · exact .one (.newRemoteStream d respPath) ⟨trivial, fun _ => trivial⟩ (by simp [Call.run, hd])
  refine hstream.trans ((Calls.one (.attach s (σ.remoteStream d node respPath).2)
    ⟨trivial, fun _ => trivial⟩ (attach_call (Frame.remoteStream σ d node respPath) (by decide) hs)).trans ?_)
  refine (Calls.one (.streamQos _) ⟨trivial, fun _ => trivial⟩ hτ).trans ?_
  rcases sendLastValue_calls h with rfl | ⟨row, h⟩
  · exact .refl _
  · exact .one (.update s row) ⟨trivial, fun _ => trivial⟩ h

theorem placeSub_calls {s : SubId} {path : CString} {respNode : Option (NodeRef × CString)} {now : J}
    (h : σ.placeSub cfg s path respNode now = some σ') : Calls cfg Call.places σ σ' := by
  unfold placeSub at h
  split at h
  · split at h
    · exact .one (.pendRemote path s) trivial h
    · exact .one (.pendLocal path s) trivial (by rw [← h]; rfl)
  · exact (brokerHandleLocalSubscribe_calls h).mono (fun _ => And.left)
  · exact (brokerSubscribeRemote_calls h).mono (fun _ => And.left)

/-! ### Requests -/

theorem serializeIf_eq {c : Prop} [Decidable c] {s : SubId} {delete : Bool}
    (h : serializeIf σ c s delete = some σ') : ∃ m, σ' = { σ with storage := m } := by
  unfold serializeIf serializeQosQueue at h
  split at h
  · simp only [Option.bind_eq_bind, Option.bind_eq_some_iff] at h
    obtain ⟨req, -, node, -, h⟩ := h
    exact ⟨_, (Option.some.inj h).symm⟩
  · exact ⟨σ.storage, (Option.some.inj h).symm⟩

/-- A path is resolved in the tree alone. -/
theorem brokerNodeGet_congr (hnode : σ'.node = σ.node) (hroot : σ'.root = σ.root) (path : CString) :
    σ'.brokerNodeGet path = σ.brokerNodeGet path := by
  have hloop : ∀ (fuel : Nat) (root : NodeId) (path : CString),
      σ'.brokerNodeGetLoop fuel root path = σ.brokerNodeGetLoop fuel root path := by
    intro fuel
    induction fuel with
    | zero => exact fun _ _ => rfl
    | succ fuel ih => intro root path; simp only [brokerNodeGetLoop, ih, hnode]
  unfold brokerNodeGet
  rw [hloop, hroot]

theorem subscribeNew_calls {d : DownId} {path : CString} {sid qos : Nat} {now : J}
    (h : σ.subscribeNew cfg d path sid qos now = some σ') :
    ∃ τ respNode, σ.newSub d path sid qos = some τ ∧ σ.brokerNodeGet path = some respNode ∧
      τ.placeSub cfg σ.sub.next path respNode now = some σ' := by
  simp only [subscribeNew, brokerAddNewSubscription, newSub, Option.bind_eq_bind, Option.bind_eq_some_iff] at h ⊢
  obtain ⟨τ, hτ, req, hs, respNode, hget, h⟩ := h
  obtain ⟨m, hm⟩ := serializeIf_eq hτ
  have hreq : req = brokerCreateSubRequester d path sid qos none := by
    rw [hm] at hs
    simpa using hs.symm
  subst hreq
  have hcongr := @brokerNodeGet_congr J σ τ (by rw [hm]) (by rw [hm])
  rw [hcongr] at hget
  exact ⟨_, respNode, ⟨τ, hτ, rfl⟩, hget, h⟩

theorem sendWaiting_calls {s : SubId} (h : σ.sendWaiting cfg s = some σ') (d : DownId) (sid : Nat) :
    Calls cfg (Call.subscribes d sid) σ σ' := by
  simp only [sendWaiting, Option.bind_eq_bind, Option.bind_eq_some_iff] at h
  obtain ⟨req, -, h⟩ := h
  split at h
  · exact .one (.flush s) trivial h
  · split at h
    · exact .one (.sendQueued s) trivial h
    · split at h
      · cases h; exact .refl _
      · rcases sendLastValue_calls h with rfl | ⟨row, h⟩
        · exact .refl _
        · exact .one (.update s row) trivial h

theorem resubscribe_calls {d : DownId} {s : SubId} {sid qos : Nat}
    (h : σ.resubscribe cfg d s sid qos = some σ') : Calls cfg (Call.subscribes d sid) σ σ' := by
  simp only [resubscribe, Option.bind_eq_bind, Option.bind_eq_some_iff] at h
  obtain ⟨τ, hτ, υ, hυ, h⟩ := h
  refine (Calls.one (.rekey d s sid) ⟨rfl, rfl⟩ hτ).trans ?_
  exact (Calls.one (.subQos s qos) trivial hυ).trans (sendWaiting_calls h d sid)

theorem subscribeNew_calls' {d : DownId} {path : CString} {sid qos : Nat} {now : J}
    (h : σ.subscribeNew cfg d path sid qos now = some σ') : Calls cfg (Call.subscribes d sid) σ σ' := by
  obtain ⟨τ, respNode, hτ, -, h⟩ := subscribeNew_calls h
  refine (Calls.one (.newSub d path sid qos) ⟨rfl, rfl⟩ hτ).trans ?_
  exact (placeSub_calls h).mono (fun c => by cases c <;> simp [Call.places, Call.subscribes])

/-- The holder of the sid is freed, unless it has the path; the rest of the request goes on without it. -/
theorem subscribePath_calls {d : DownId} {path : CString} {sid qos : Nat} {now : J}
    (h : σ.subscribePath cfg d path sid qos now = some σ') :
    ∃ node τ, σ.dnode.get d = some node ∧
      (τ = σ ∨ ∃ s, node.reqSubSids.get sid = some s ∧ node.reqSubPaths.get path ≠ some s ∧
        σ.brokerFreeSubRequester s = some τ) ∧ Calls cfg (Call.subscribes d sid) τ σ' := by
  simp only [subscribePath, Option.bind_eq_bind, Option.bind_eq_some_iff] at h
  obtain ⟨node, hd, h⟩ := h
  split at h
  · rename_i s s' hsid hpath
    split at h
    · exact ⟨node, σ, hd, Or.inl rfl, .one (.subQos s qos) trivial h⟩
    · rename_i hne
      simp only [Option.bind_eq_some_iff] at h
      obtain ⟨τ, hτ, h⟩ := h
      have hpath : node.reqSubPaths.get path ≠ some s := by
        rw [hpath]
        exact fun he => hne (Option.some.inj he).symm
      exact ⟨node, τ, hd, Or.inr ⟨s, hsid, hpath, hτ⟩, resubscribe_calls h⟩
  · rename_i s hsid hpath
    simp only [Option.bind_eq_some_iff] at h
    obtain ⟨τ, hτ, h⟩ := h
    exact ⟨node, τ, hd, Or.inr ⟨s, hsid, by rw [hpath]; simp, hτ⟩, subscribeNew_calls' h⟩
  · exact ⟨node, σ, hd, Or.inl rfl, resubscribe_calls h⟩
  · exact ⟨node, σ, hd, Or.inl rfl, subscribeNew_calls' h⟩

/-! ### Opening a link -/

theorem brokerDslinkConnect_calls {d : DownId} {node : DownstreamNode J} (hd : σ.dnode.get d = some node)
    (hlink : node.link.isNone) (h : σ.brokerDslinkConnect cfg d = some σ') :
    Calls cfg (Call.connects d) σ σ' := by
  simp only [brokerDslinkConnect, Option.bind_eq_bind, Option.bind_eq_some_iff] at h
  obtain ⟨node', hd', τ, hτ, h⟩ := h
  cases hd.symm.trans hd'
  have hopen : Call.run cfg σ (.openLink d) = some (σ.modDnode d (fun node' =>
      { node' with link := some ⟨σ.linkPath node, 0, []⟩ })) := by
    simp [Call.run, openLink, hd, Option.isNone_iff_eq_none.mp hlink]
  refine (Calls.one (A := Call.connects d) (.openLink d) rfl hopen).trans ?_
  have hresend : Calls cfg (Call.connects d) (σ.modDnode d (fun node' =>
      { node' with link := some ⟨σ.linkPath node, 0, []⟩ })) τ := by
    refine Calls.foldlM (fun σ st _ σ' h => ?_) hτ
    simp only [Option.bind_eq_bind, Option.bind_eq_some_iff] at h
    obtain ⟨stream, -, h⟩ := h
    exact .one (.sendSubscribe d _ _ _) rfl h
  refine hresend.trans ?_
  split at h
  · cases h; exact .refl _
  · rename_i subs _
    simp only [Option.bind_eq_some_iff] at h
    obtain ⟨len, -, υ, hυ, h⟩ := h
    refine (Calls.one (.dropRemote node.path) trivial rfl).trans ?_
    have hattach : Calls cfg (Call.connects d)
        { τ with remotePendingSub := τ.remotePendingSub.erase node.path } υ := by
      refine Calls.foldlM (fun σ s _ σ' h => ?_) hυ
      simp only [Option.bind_eq_bind, Option.bind_eq_some_iff] at h
      obtain ⟨req, -, h⟩ := h
      exact (brokerSubscribeRemote_calls h).mono (fun c hc => hc.2 d)
    exact hattach.trans (.one (.unlist subs) trivial (by rw [← h]; rfl))

/-! ### Names out of a path -/

/-- The text before the first slash has none. -/
theorem slash_not_mem_splitSlash (path : CString) : slash ∉ (splitSlash path).1 := by
  induction path with
  | nil => simp [splitSlash]
  | cons c path ih =>
    rw [splitSlash]
    split
    · simp
    · rename_i hc
      exact List.mem_cons.not.mpr (not_or.mpr ⟨Ne.symm hc, ih⟩)

/-- A path is the text before its first slash and the rest from it on. -/
theorem splitSlash_eq (path : CString) : (splitSlash path).1 ++ ((splitSlash path).2).getD [] = path := by
  induction path with
  | nil => rfl
  | cons c path ih =>
    rw [splitSlash]
    split
    · rfl
    · show c :: ((splitSlash path).1 ++ _) = c :: path
      rw [ih]

/-- The text from the first slash on starts with it. -/
theorem splitSlash_rest {path rest : CString} (h : (splitSlash path).2 = some rest) : rest.head? = some slash := by
  induction path with
  | nil => cases h
  | cons c path ih =>
    rw [splitSlash] at h
    split at h
    · rename_i hc
      rw [← Option.some.inj h, hc]
      rfl
    · exact ih h

/-- Past one slash the next name is empty only where another slash follows. -/
theorem stripSlash_name (path : CString) {rest : CString}
    (hrest : (if path.head? = some slash then path.tail else path) = rest) :
    (rest ≠ [] → (splitSlash rest).1 = [] → [slash, slash] <:+: path) ∧
      ((splitSlash rest).2).getD [] <:+: path := by
  have hsuffix : rest <:+ path := by
    rw [← hrest]
    split
    · exact List.tail_suffix path
    · exact List.suffix_refl path
  refine ⟨fun hne hempty => ?_, ?_⟩
  · have heq := splitSlash_eq rest
    rw [hempty, List.nil_append] at heq
    cases hsplit : (splitSlash rest).2 with
    | none =>
      rw [hsplit] at heq
      exact absurd heq.symm hne
    | some text =>
      rw [hsplit] at heq
      have hhead : rest.head? = some slash := by
        rw [← heq]
        exact splitSlash_rest hsplit
      obtain ⟨rest', hcons⟩ : ∃ rest', rest = slash :: rest' := by
        cases rest with
        | nil => exact absurd rfl hne
        | cons c rest' => exact ⟨rest', by rw [Option.some.inj hhead]⟩
      rw [hcons] at hrest
      split at hrest
      · rename_i hpath
        refine List.IsPrefix.isInfix ⟨rest', ?_⟩
        obtain ⟨c, path', rfl⟩ := List.exists_cons_of_ne_nil (l := path) (by rintro rfl; cases hpath)
        rw [Option.some.inj hpath]
        exact congrArg (slash :: ·) hrest.symm
      · rename_i hpath
        rw [hrest] at hpath
        exact absurd rfl hpath
  · have htail : ((splitSlash rest).2).getD [] <:+ rest := ⟨_, splitSlash_eq rest⟩
    exact (htail.trans hsuffix).isInfix

/-- The names of the actions below a data node. -/
def dataActionNames : List CString := [cstr "addNode", cstr "addValue", cstr "deleteNode"]

theorem dataActionNames_plain : ∀ name ∈ dataActionNames, name ≠ [] ∧ slash ∉ name := by decide

/-! ### Adding and removing nodes -/

theorem freeDownstreamNode_calls {d : DownId} (h : σ.freeDownstreamNode d = some σ') :
    Calls cfg Call.removes σ σ' := .one (.dropDnode d) trivial h

theorem freeChildren_calls {free : Broker J → NodeRef → Option (Broker J)} {refs : List NodeRef}
    (hfree : ∀ σ ref σ', free σ ref = some σ' → Calls cfg Call.removes σ σ')
    (h : freeChildren free σ refs = some σ') : Calls cfg Call.removes σ σ' := by
  induction refs generalizing σ with
  | nil => cases h; exact .refl _
  | cons ref rest ih =>
    cases ref with
    | regular n =>
      simp only [freeChildren, Option.bind_eq_bind, Option.bind_eq_some_iff] at h
      obtain ⟨τ, hτ, h⟩ := h
      exact (Calls.one (.orphan (.regular n)) trivial rfl).trans ((hfree _ _ _ hτ).trans (ih h))
    | downstream d =>
      simp only [freeChildren, Option.bind_eq_bind, Option.bind_eq_some_iff] at h
      obtain ⟨τ, hτ, h⟩ := h
      exact (Calls.one (.orphan (.downstream d)) trivial rfl).trans ((hfree _ _ _ hτ).trans (ih h))

theorem brokerNodeFreeLoop_calls {fuel : Nat} {ref : NodeRef} (h : brokerNodeFreeLoop fuel σ ref = some σ') :
    Calls cfg Call.removes σ σ' := by
  induction fuel generalizing σ σ' ref with
  | zero => simp [brokerNodeFreeLoop] at h
  | succ fuel ih =>
    cases ref with
    | downstream d => exact freeDownstreamNode_calls h
    | regular n =>
      simp only [brokerNodeFreeLoop, Option.bind_eq_bind, Option.bind_eq_some_iff] at h
      obtain ⟨node, hn, τ, hτ, υ, hυ, h⟩ := h
      refine (freeChildren_calls (fun _ _ _ h => ih h) hτ).trans (Calls.trans (τ := υ) ?_ ?_)
      · unfold freeStreamIfAny at hυ
        split at hυ
        · cases hυ; exact .refl _
        · exact .one (.freeStream _) trivial hυ
      · exact .one (.dropNode n node.parent node.name) trivial
          (by simpa only [Call.run, dropNode, Option.bind_eq_bind, Option.bind_eq_some_iff] using h)

theorem brokerNodeFree_calls {ref : NodeRef} (h : σ.brokerNodeFree ref = some σ') :
    Calls cfg Call.removes σ σ' := brokerNodeFreeLoop_calls h

section

variable {N : CString → Prop}

theorem handlePendingSub_calls {n : NodeId} {now : J} (h : σ.handlePendingSub cfg n now = some σ') :
    Calls cfg (Call.buildsNamed N) σ σ' := by
  simp only [handlePendingSub, Option.bind_eq_bind, Option.bind_eq_some_iff] at h
  obtain ⟨node, -, h⟩ := h
  split at h
  · cases h; exact .refl _
  · rename_i subs _
    simp only [Option.bind_eq_some_iff] at h
    obtain ⟨τ, hτ, h⟩ := h
    refine (Calls.one (.dropLocal node.path) ⟨trivial, trivial⟩ rfl).trans (Calls.trans (τ := τ) ?_ ?_)
    · refine .foldlM (fun σ s _ σ' h => ?_) hτ
      refine (brokerHandleLocalSubscribe_calls h).mono ?_
      rintro c ⟨hplaces, hbuilds⟩
      refine ⟨hbuilds, ?_⟩
      -- what places a SubRequester adds no node
      cases c <;> simp [Call.places] at hplaces <;> simp [Call.names]
    · exact .one (.unlist subs) ⟨trivial, trivial⟩ h

/-- Work with names out of `N` leads from `σ` to `σ'`. -/
def Works (cfg : Config) (N : CString → Prop) (σ σ' : Broker J) : Prop :=
  Reach (Work.run cfg) (fun _ w => w.named N) (· = σ) σ'

namespace Works

variable {τ : Broker J}

theorem refl (σ : Broker J) : Works cfg N σ σ := .start rfl

theorem trans (h : Works cfg N σ τ) (h' : Works cfg N τ σ') : Works cfg N σ σ' := Reach.trans h h'

theorem call (c : Call J) (hc : c.raises ∧ c.names N) (h : c.run cfg σ = some σ') : Works cfg N σ σ' :=
  Reach.single (e := .call c) hc h

theorem pending {n : NodeId} {now : J} (h : σ.handlePendingSub cfg n now = some σ') : Works cfg N σ σ' :=
  Reach.single (e := .pending n now) trivial h

theorem of_calls {A : Call J → Prop} (h : Calls cfg A σ σ') (hA : ∀ c, A c → c.raises ∧ c.names N) :
    Works cfg N σ σ' :=
  Calls.invariant (fun τ => Works cfg N σ τ) h (fun _ c _ hw hc hs => hw.trans (call c (hA c hc) hs)) (refl σ)

/-- Work is a sequence of calls that build. -/
theorem calls (h : Works cfg N σ σ') : Calls cfg (Call.buildsNamed N) σ σ' := by
  refine Reach.invariant (fun τ => Calls cfg (Call.buildsNamed N) σ τ) ?_ ?_ h
  · rintro τ rfl
    exact .refl _
  · intro τ w υ hτ hw hs
    cases w with
    | call c =>
      refine hτ.trans (.one c ⟨?_, hw.2⟩ hs)
      obtain ⟨hraises, -⟩ := hw
      cases c <;> trivial
    | pending n now => exact hτ.trans (handlePendingSub_calls hs)

/-- What the work keeps: the calls, and placing what is pending. -/
theorem invariant (inv : Broker J → Prop) (h : Works cfg N σ σ')
    (hcall : ∀ σ (c : Call J) σ', inv σ → c.raises → c.run cfg σ = some σ' → inv σ')
    (hpending : ∀ σ n now σ', inv σ → σ.handlePendingSub cfg n now = some σ' → inv σ') (h0 : inv σ) : inv σ' := by
  refine Reach.invariant inv ?_ ?_ h
  · rintro τ rfl
    exact h0
  · intro τ w υ hτ hw hs
    cases w with
    | call c => exact hcall τ c υ hτ hw.1 hs
    | pending n now => exact hpending τ n now υ hτ hs

end Works

theorem brokerNodeUpdateValue_works {n : NodeId} {value now : J}
    (h : brokerNodeUpdateValue cfg σ n value now = some σ') : Works cfg N σ σ' := by
  simp only [brokerNodeUpdateValue, Option.bind_eq_bind, Option.bind_eq_some_iff] at h
  obtain ⟨node, -, h⟩ := h
  refine (Works.call (.setNodeValue n value) ⟨trivial, trivial⟩ rfl).trans ?_
  split at h
  · cases h; exact .refl _
  · exact .of_calls (brokerUpdateSubStream_calls h) (fun c => by cases c <;> simp [Call.updates, Call.raises, Call.names])

theorem brokerNodeAdd_works {parent : NodeId} {name : CString} {r : Option NodeId} (hN : N name)
    (h : σ.brokerNodeAdd parent name = some (σ', r)) : Works cfg N σ σ' :=
  .call (.newNode parent name) ⟨trivial, hN⟩ (by simp [Call.run, h])

theorem addAction_works {parent : NodeId} {name : CString} {action : DataAction} {r : Option NodeId} (hN : N name)
    (h : σ.addAction parent name action = some (σ', r)) : Works cfg N σ σ' := by
  simp only [addAction, Option.bind_eq_bind, Option.bind_eq_some_iff] at h
  obtain ⟨⟨τ, child⟩, hτ, h⟩ := h
  refine (brokerNodeAdd_works hN hτ).trans ?_
  split at h
  · cases h; exact .refl _
  · cases h; exact .call (.setAction _ action) ⟨trivial, trivial⟩ rfl

theorem freeIfAny_works {child : Option NodeId} (h : σ.freeIfAny child = some σ') :
    Works cfg N σ σ' := by
  unfold freeIfAny at h
  split at h
  · cases h; exact .refl _
  · exact .of_calls (brokerNodeFree_calls h) (fun _ hc => hc.raisesNamed)

theorem brokerCreateDataActions_works {n : NodeId} {r : Int} (hN : ∀ name ∈ dataActionNames, N name)
    (h : σ.brokerCreateDataActions n = some (σ', r)) : Works cfg N σ σ' := by
  simp only [brokerCreateDataActions, Option.bind_eq_bind, Option.bind_eq_some_iff] at h
  obtain ⟨⟨σ1, c1⟩, h1, ⟨σ2, c2⟩, h2, ⟨σ3, c3⟩, h3, h⟩ := h
  have h1 : Works cfg N _ _ := addAction_works (hN _ (by simp [dataActionNames])) h1
  have h2 : Works cfg N _ _ := addAction_works (hN _ (by simp [dataActionNames])) h2
  have h3 : Works cfg N _ _ := addAction_works (hN _ (by simp [dataActionNames])) h3
  refine h1.trans (h2.trans (h3.trans ?_))
  split at h
  · cases h; exact .refl _
  · simp only [Option.bind_eq_some_iff] at h
    obtain ⟨σ4, h4, σ5, h5, σ6, h6, h⟩ := h
    cases h
    exact (freeIfAny_works h4).trans ((freeIfAny_works h5).trans (freeIfAny_works h6))

theorem onAddNodeInvoked_works {n : NodeId} {name : Option CString} {now : J}
    (hname : ∀ k, name = some k → N k) (hN : ∀ name ∈ dataActionNames, N name)
    (h : σ.onAddNodeInvoked cfg n name now = some σ') : Works cfg N σ σ' := by
  unfold onAddNodeInvoked at h
  split at h
  · cases h; exact .refl _
  · simp only [Option.bind_eq_bind, Option.bind_eq_some_iff] at h
    obtain ⟨action, -, parent, -, ⟨σ1, child⟩, h1, h⟩ := h
    refine (brokerNodeAdd_works (hname _ rfl) h1).trans ?_
    split at h
    · cases h; exact .refl _
    · simp only [Option.bind_eq_some_iff] at h
      obtain ⟨⟨σ2, r⟩, h2, h⟩ := h
      exact (brokerCreateDataActions_works hN h2).trans (Works.pending h)

theorem onAddValueInvoked_works {n : NodeId} {name : Option CString} {now : J}
    (hname : ∀ k, name = some k → N k) (hN : ∀ name ∈ dataActionNames, N name)
    (h : σ.onAddValueInvoked cfg n name now = some σ') : Works cfg N σ σ' := by
  unfold onAddValueInvoked at h
  split at h
  · cases h; exact .refl _
  · simp only [Option.bind_eq_bind, Option.bind_eq_some_iff] at h
    obtain ⟨action, -, parent, -, ⟨σ1, child⟩, h1, h⟩ := h
    refine (brokerNodeAdd_works (hname _ rfl) h1).trans ?_
    split at h
    · cases h; exact .refl _
    · simp only [Option.bind_eq_some_iff] at h
      obtain ⟨⟨σ2, r⟩, h2, h⟩ := h
      refine (brokerCreateDataActions_works hN h2).trans ?_
      split at h
      · exact .of_calls (brokerNodeFree_calls h) (fun _ hc => hc.raisesNamed)
      · exact Works.pending h

theorem onDeleteNodeInvoked_works {n : NodeId} (h : σ.onDeleteNodeInvoked n = some σ') :
    Works cfg N σ σ' := by
  simp only [onDeleteNodeInvoked, Option.bind_eq_bind, Option.bind_eq_some_iff] at h
  obtain ⟨action, -, parent, -, h⟩ := h
  exact .of_calls (brokerNodeFree_calls h) (fun _ hc => hc.raisesNamed)

/-- The nodes it adds are called what stands between two slashes of the path. -/
theorem brokerCreateDynamicDataNode_works {value now : J} {fuel : Nat} {n : NodeId} {path : CString}
    (hpath : ∀ name, slash ∉ name → (name = [] → [slash, slash] <:+: path) → N name)
    (h : σ.brokerCreateDynamicDataNode cfg value now fuel n path = some σ') :
    Works cfg N σ σ' := by
  induction fuel generalizing σ n path with
  | zero => simp [brokerCreateDynamicDataNode] at h
  | succ fuel ih =>
    simp only [brokerCreateDynamicDataNode] at h
    generalize hstrip : (if path.head? = some slash then path.tail else path) = rest at h
    by_cases hrest : rest = []
    · rw [if_pos hrest] at h
      exact brokerNodeUpdateValue_works h
    · rw [if_neg hrest] at h
      obtain ⟨hempty, hsuffix⟩ := stripSlash_name path hstrip
      have hsub : ∀ name, slash ∉ name → (name = [] → [slash, slash] <:+: ((splitSlash rest).2).getD []) → N name :=
        fun name hslash hin => hpath name hslash (fun he => (hin he).trans hsuffix)
      simp only [Option.bind_eq_bind, Option.bind_eq_some_iff] at h
      obtain ⟨node, -, h⟩ := h
      split at h
      · exact ih hsub h
      · simp at h
      · simp only [Option.bind_eq_some_iff] at h
        obtain ⟨⟨σ1, child⟩, h1, h⟩ := h
        refine (brokerNodeAdd_works (hpath _ (slash_not_mem_splitSlash rest) (hempty hrest)) h1).trans ?_
        split at h
        · cases h; exact .refl _
        · simp only [Option.bind_eq_some_iff] at h
          obtain ⟨σ2, h2, ⟨σ3, r⟩, h3, h⟩ := h
          have hactions : ∀ name ∈ dataActionNames, N name := by
            intro name hm
            obtain ⟨hne, hslash⟩ := dataActionNames_plain name hm
            exact hpath name hslash (fun he => absurd he hne)
          exact (Works.pending h2).trans ((brokerCreateDataActions_works hactions h3).trans (ih hsub h))

theorem onPublishContinuousInvoked_works {path : CString} {value now : J}
    (hpath : σ.brokerNodeGet path = some none → startsWith path (cstr "/data") = true →
      ∀ name, slash ∉ name → (name = [] → [slash, slash] <:+: path) → N name)
    (h : σ.onPublishContinuousInvoked cfg path value now = some σ') : Works cfg N σ σ' := by
  simp only [onPublishContinuousInvoked, Option.bind_eq_bind, Option.bind_eq_some_iff] at h
  obtain ⟨node, hnode, h⟩ := h
  split at h
  · exact brokerNodeUpdateValue_works h
  · cases h; exact .refl _
  · split at h
    · exact brokerCreateDynamicDataNode_works (hpath hnode ‹_›) h
    · cases h; exact .refl _

theorem forward_works {d : DownId} (h : σ.forward d = some σ') : Works cfg N σ σ' := by
  simp only [forward, Option.bind_eq_bind, Option.bind_eq_some_iff] at h
  obtain ⟨node, hd, h⟩ := h
  split at h
  · cases h; exact .refl _
  · rename_i node' hsend
    exact .call (.sendOther d) ⟨trivial, trivial⟩ (by simp [Call.run, Broker.sendOther, hd, hsend, ← h])

theorem brokerMsgHandleSet_works {path : CString} {value now : J}
    (hpath : σ.brokerNodeGet path = some none → (lastSegment path).head? ≠ some 36 →
      startsWith path (cstr "/data") = true → ∀ name, slash ∉ name → (name = [] → [slash, slash] <:+: path) → N name)
    (h : σ.brokerMsgHandleSet cfg path value now = some σ') : Works cfg N σ σ' := by
  simp only [brokerMsgHandleSet, Option.bind_eq_bind, Option.bind_eq_some_iff] at h
  obtain ⟨node, hnode, h⟩ := h
  split at h
  · exact forward_works h
  · split at h
    · cases h; exact .refl _
    · exact brokerNodeUpdateValue_works h
  · split at h
    · cases h; exact .refl _
    · rename_i hattr
      split at h
      · exact brokerCreateDynamicDataNode_works (hpath hnode hattr ‹_›) h
      · cases h; exact .refl _

end

/-! ## Handlers as sequences of calls -/

theorem handleSubscribe_calls {d : DownId} {sub : SubscribeEntry} {now : J}
    (h : σ.handleSubscribe cfg d sub now = some σ') :
    Calls cfg (fun c => ∃ jSid, sub.sid = some jSid ∧ (c.subscribes d (toU32 jSid) ∨ ∃ s, c = .freeSub s)) σ σ' := by
  unfold handleSubscribe at h
  split at h
  · rename_i path jSid _ hsid
    split at h
    · cases h; exact .refl _
    · obtain ⟨node, τ, -, hτ, h⟩ := subscribePath_calls h
      refine Calls.trans (τ := τ) ?_ (h.mono (fun c hc => ⟨jSid, hsid, Or.inl hc⟩))
      rcases hτ with rfl | ⟨s, -, -, hτ⟩
      · exact .refl _
      · exact .one (.freeSub s) ⟨jSid, hsid, Or.inr ⟨s, rfl⟩⟩ hτ
  · cases h; exact .refl _

theorem handleUnsubscribe_calls {d : DownId} {sid : Nat} (h : σ.handleUnsubscribe d sid = some σ') :
    Calls cfg (fun c => c = .forget d sid ∨ ∃ s, c = .freeSub s) σ σ' := by
  simp only [handleUnsubscribe, Option.bind_eq_bind, Option.bind_eq_some_iff] at h
  obtain ⟨node, -, h⟩ := h
  split at h
  · cases h; exact .refl _
  · rename_i s _
    exact (Calls.one (.forget d sid) (Or.inl rfl) rfl).trans (.one (.freeSub s) (Or.inr ⟨s, rfl⟩) h)

end Broker

/-- The calls of a handler. -/
def Event.calls : Event J → Call J → Prop
  | .initDownstream _, c => ∃ parent name, c = .newDnode parent name
  | .initUpstream _, c => ∃ parent name, c = .newDnode parent name
  | .connect d, c => c.connects d
  | .closeLink d, c => c = .closeLink d
  | .removeLink d, c => c = .dropDnode d
  | .subscribe d sub _, c => ∃ jSid, sub.sid = some jSid ∧ (c.subscribes d (toU32 jSid) ∨ ∃ s, c = .freeSub s)
  | .unsubscribe d sid, c => c = .forget d (toU32 sid) ∨ ∃ s, c = .freeSub s
  | .ack d k, c => c = .ack d (toU32 k)
  | .update s row, c => c = .update s row
  | .streamUpdate _ _, c => c.updates
  | .sendOther d, c => c = .sendOther d
  | .addLocal parent name, c => c = .newNode parent name
  | .freeLocal _, c => c.removes
  | .nodeValue .., c | .invoke .., c | .publish .., c | .set .., c => c.builds

/-- The handlers that build local nodes or give them values. -/
def Event.works : Event J → Prop
  | .nodeValue .. | .invoke .. | .publish .. | .set .. => True
  | _ => False

namespace Broker

theorem onLink_eq {d : DownId} {f : Option (Broker J)} (h : σ.onLink d f = some σ') :
    ∃ node, σ.dnode.get d = some node ∧ node.link.isSome ∧ f = some σ' := by
  simp only [onLink, Option.bind_eq_bind, Option.bind_eq_some_iff] at h
  obtain ⟨node, hd, h⟩ := h
  split at h
  · exact ⟨node, hd, ‹_›, h⟩
  · cases h

theorem initNode_calls {parent : NodeId} {name : CString} (h : σ.initNode parent name = some σ') :
    Calls cfg (fun c => ∃ parent name, c = .newDnode parent name) σ σ' := by
  simp only [initNode, Option.bind_eq_bind, Option.bind_eq_some_iff] at h
  obtain ⟨node, -, h⟩ := h
  split at h
  · cases h; exact .refl _
  · simp only [Option.bind_eq_some_iff] at h
    obtain ⟨⟨τ, id⟩, hτ, h⟩ := h
    cases h
    exact .one (.newDnode parent name) ⟨parent, name, rfl⟩ (by simp [Call.run, hτ])

/-- A callback that builds local nodes or gives them values is a sequence of work. -/
theorem step_works {e : Event J} (h : step cfg σ e = some σ') (he : e.works) : Works cfg (fun _ => True) σ σ' := by
  cases e with
  | nodeValue n value now => exact brokerNodeUpdateValue_works h
  | invoke n name now =>
    simp only [step, invokeAction, Option.bind_eq_bind, Option.bind_eq_some_iff] at h
    obtain ⟨node, -, action, -, h⟩ := h
    cases action with
    | addNode => exact onAddNodeInvoked_works (fun _ _ => trivial) (fun _ _ => trivial) h
    | addValue => exact onAddValueInvoked_works (fun _ _ => trivial) (fun _ _ => trivial) h
    | deleteNode => exact onDeleteNodeInvoked_works h
    | publish => cases h
  | publish path value now => exact onPublishContinuousInvoked_works (fun _ _ _ _ _ => trivial) h
  | set path value now => exact brokerMsgHandleSet_works (fun _ _ _ _ _ _ => trivial) h
  | _ => exact he.elim

/-- Every callback of the event loop is a sequence of its calls. -/
theorem step_calls {e : Event J} (h : step cfg σ e = some σ') : Calls cfg e.calls σ σ' := by
  cases e with
  | initDownstream name => exact initNode_calls h
  | initUpstream name => exact initNode_calls h
  | connect d =>
    simp only [step, Option.bind_eq_bind, Option.bind_eq_some_iff] at h
    obtain ⟨node, hd, h⟩ := h
    by_cases hlink : node.link.isSome
    · rw [if_pos hlink] at h
      cases h
    · rw [if_neg hlink] at h
      exact brokerDslinkConnect_calls hd (by simpa using hlink) h
  | closeLink d =>
    obtain ⟨node, -, -, h⟩ := onLink_eq h
    exact .one (.closeLink d) rfl h
  | removeLink d =>
    simp only [step, Option.bind_eq_bind, Option.bind_eq_some_iff] at h
    obtain ⟨node, -, h⟩ := h
    split at h
    · cases h
    · exact .one (.dropDnode d) rfl h
  | subscribe d sub now =>
    obtain ⟨node, -, -, h⟩ := onLink_eq h
    exact handleSubscribe_calls h
  | unsubscribe d sid =>
    obtain ⟨node, -, -, h⟩ := onLink_eq h
    exact handleUnsubscribe_calls h
  | ack d k =>
    obtain ⟨node, -, -, h⟩ := onLink_eq h
    exact .one (.ack d (toU32 k)) rfl h
  | update s row => exact .one (.update s row) rfl h
  | streamUpdate st row => exact brokerUpdateSubStream_calls h
  | sendOther d => exact .one (.sendOther d) rfl h
  | addLocal parent name =>
    simp only [step, Option.bind_eq_bind, Option.bind_eq_some_iff] at h
    obtain ⟨⟨τ, c⟩, hτ, h⟩ := h
    cases h
    exact .one (.newNode parent name) rfl (by simp [Call.run, hτ])
  | freeLocal n => exact brokerNodeFree_calls h
  | nodeValue | invoke | publish | set => exact (step_works h trivial).calls.mono (fun _ => And.left)

end Broker

end DSLink
