import DSLink.Broker.Frame

/-!
# `Broker.Footprint` — the frame of every function below the handlers

One lemma for each function: the parts it may change. The footprint of a caller is the union of those of its
callees, so each proof takes the function's steps in order and composes their frames.

## Contents
- Sending and acknowledging: `Frame.putSender` … `Frame.checkSubscriptionAck`.
- Updates: `Frame.brokerUpdateSubReq` and its callers.
- Placement: pending lists, streams, `Frame.brokerStreamFree`, `Frame.releaseSub`.
-/

namespace DSLink

variable {J : Type} {cfg : Config} {σ σ' : Broker J}

namespace Broker

/-- What sending rows of a message queue changes. -/
abbrev sendParts : List Part := [.queue, .link, .wire, .acks]

/-- What `broker_update_sub_req` changes. -/
abbrev updateParts : List Part := [.queue, .link, .wire, .acks, .qosQueue, .storage, .published]

/-- What freeing a stream changes. -/
abbrev streamFreeParts : List Part :=
  [.place, .pending, .resp, .link, .streams, .values, .subStream]

/-- What attaching a SubRequester to a stream changes. -/
abbrev attachParts : List Part :=
  [.queue, .link, .wire, .acks, .qosQueue, .storage, .published, .place, .resp, .streams, .values, .subStream]

/-- What freeing a SubRequester changes. -/
abbrev freeSubParts : List Part :=
  [.subs, .place, .sid, .qos, .qosQueue, .queue, .acks, .index, .storage, .pending, .resp, .link, .streams,
    .values, .subStream]

/-- What a downstream node that comes or goes changes. -/
abbrev dnodeParts : List Part := [.downs, .link, .wire, .acks, .index, .resp, .nodes]

/-- What a local node that comes or goes changes. -/
abbrev nodeParts : List Part := [.nodes, .subStream, .nodeValue]

namespace Frame

/-! ## Sending and acknowledging -/

theorem putSender (σ : Broker J) (s : SubId) (d : DownId) (x : Sender J) :
    Frame sendParts σ (σ.putSender s d x) := by
  refine Frame.trans (Frame.modSub ?_) (Frame.modDnode ?_)
  · intro p hp r
    cases p <;> simp_all [SubRequester.Agree]
  · intro p hp n _
    cases p <;> simp_all [DownstreamNode.Agree]

theorem sendQueuedMessages {s : SubId} (h : sendQueuedMessages cfg σ s = some σ') :
    Frame sendParts σ σ' := by
  simp only [Broker.sendQueuedMessages, Option.bind_eq_bind, Option.bind_eq_some_iff] at h
  obtain ⟨req, -, node, -, h⟩ := h
  split at h
  · cases h; exact .refl _ _
  · split at h
    · cases h; exact .putSender _ _ _ _
    · cases h; exact .refl _ _

theorem ackOne {pack : PendingAck} (h : ackOne cfg σ pack = some σ') : Frame sendParts σ σ' := by
  simp only [Broker.ackOne, Option.bind_eq_bind, Option.bind_eq_some_iff] at h
  obtain ⟨req, -, h⟩ := h
  have hmod : ∀ q : Option (Ringbuffer (QueuedMessage J)), Frame sendParts σ
      (σ.modSub pack.subscription (fun req =>
        { req with messageQueue := q, messageOutputQueueCount := dec32 req.messageOutputQueueCount })) :=
    fun q => Frame.modSub (by intro p hp r; cases p <;> simp_all [SubRequester.Agree])
  split at h
  · exact (hmod _).trans (.sendQueuedMessages h)
  · cases h; exact hmod _

theorem ackLoop {d : DownId} {n : Nat} (h : ackLoop cfg d n σ = some σ') : Frame sendParts σ σ' := by
  induction n generalizing σ with
  | zero => cases h; exact .refl _ _
  | succ n ih =>
    simp only [Broker.ackLoop, Option.bind_eq_bind, Option.bind_eq_some_iff] at h
    obtain ⟨node, -, vec, -, pack, -, τ, hone, h⟩ := h
    exact (Frame.ackOne hone).trans (ih h)

theorem checkSubscriptionAck {d : DownId} {ack : Nat} (h : checkSubscriptionAck cfg σ d ack = some σ') :
    Frame sendParts σ σ' := by
  simp only [Broker.checkSubscriptionAck, Option.bind_eq_bind, Option.bind_eq_some_iff] at h
  obtain ⟨node, -, τ, hloop, h⟩ := h
  cases h
  refine (Frame.ackLoop hloop).trans (Frame.modDnode ?_)
  intro p hp n _
  cases p <;> simp_all [DownstreamNode.Agree]

theorem sendSubscribeRequest {d : DownId} {path : CString} {sid qos : Nat}
    (h : sendSubscribeRequest σ d path sid qos = some σ') : Frame [.resp, .link] σ σ' := by
  simp only [Broker.sendSubscribeRequest, DownstreamNode.wsSend, Option.bind_eq_bind,
    Option.bind_eq_some_iff, Option.map_eq_some_iff] at h
  obtain ⟨node, hnode, node', ⟨link, hlink, rfl⟩, h⟩ := h
  cases h
  refine Frame.modDnode ?_
  intro p hp n hn
  cases hnode.symm.trans hn
  cases p <;> simp_all [DownstreamNode.Agree, linkFrames, wireRows_wsSendObj, frameRows]

theorem brokerMsgSendUnsubscribe {d : DownId} {sid : Nat}
    (h : brokerMsgSendUnsubscribe σ d sid = some σ') : Frame [.resp, .link] σ σ' := by
  simp only [Broker.brokerMsgSendUnsubscribe, DownstreamNode.wsSend, Option.bind_eq_bind,
    Option.bind_eq_some_iff] at h
  obtain ⟨node, hnode, h⟩ := h
  split at h
  · cases h; exact .refl _ _
  · simp only [Option.bind_eq_some_iff, Option.map_eq_some_iff] at h
    obtain ⟨node', ⟨link, hlink, rfl⟩, h⟩ := h
    cases h
    refine Frame.modDnode ?_
    intro p hp n hn
    cases hnode.symm.trans hn
    cases p <;> simp_all [DownstreamNode.Agree, linkFrames, wireRows_wsSendObj, frameRows]

/-! ## Updates -/

theorem serializeQosQueue {s : SubId} {delete : Bool} (h : serializeQosQueue σ s delete = some σ') :
    Frame [.storage] σ σ' := by
  simp only [Broker.serializeQosQueue, Option.bind_eq_bind, Option.bind_eq_some_iff] at h
  obtain ⟨req, -, node, -, h⟩ := h
  cases h
  exact .setStorage _ _

theorem serializeIf {c : Prop} [Decidable c] {s : SubId} {delete : Bool}
    (h : serializeIf σ c s delete = some σ') : Frame [.storage] σ σ' := by
  unfold Broker.serializeIf at h
  split at h
  · exact .serializeQosQueue h
  · cases h; exact .refl _ _

theorem clearQosQueue {s : SubId} {serialize : Bool} (h : clearQosQueue σ s serialize = some σ') :
    Frame [.qosQueue, .storage] σ σ' := by
  simp only [Broker.clearQosQueue, Option.bind_eq_bind, Option.bind_eq_some_iff] at h
  obtain ⟨req, -, h⟩ := h
  have hmod : Frame [.qosQueue, .storage] σ
      (σ.modSub s (fun req => { req with qosQueue := req.qosQueue.map (fun _ => []) })) :=
    Frame.modSub (by intro p hp r; cases p <;> simp_all [SubRequester.Agree])
  exact hmod.trans ((Frame.serializeIf h).mono (by decide))

theorem brokerUpdateSubReqQos {s : SubId} (h : brokerUpdateSubReqQos σ s = some σ') :
    Frame [.link, .wire, .qosQueue, .storage] σ σ' := by
  simp only [Broker.brokerUpdateSubReqQos, Option.bind_eq_bind, Option.bind_eq_some_iff] at h
  obtain ⟨req, -, node, -, h⟩ := h
  split at h
  · cases h; exact .refl _ _
  · refine (Frame.modDnode ?_).trans ((Frame.clearQosQueue h).mono (by decide))
    intro p hp n _
    cases p <;> simp_all [DownstreamNode.Agree]

theorem brokerClearMesssageIds (σ : Broker J) (s : SubId) : Frame [.queue] σ (σ.brokerClearMesssageIds s) :=
  Frame.modSub (by intro p hp r; cases p <;> simp_all [SubRequester.Agree])

theorem brokerUpdateSubReq {s : SubId} {row : Row J} (h : brokerUpdateSubReq cfg σ s row = some σ') :
    Frame updateParts σ σ' := by
  simp only [Broker.brokerUpdateSubReq, Option.bind_eq_bind, Option.bind_eq_some_iff] at h
  obtain ⟨req, -, node, -, h⟩ := h
  have hpub : Frame updateParts σ { σ with published := σ.published ++ [(s, row)] } :=
    (Frame.setPublished _ _).mono (by decide)
  have hqueue : ∀ q, Frame updateParts { σ with published := σ.published ++ [(s, row)] }
      (({ σ with published := σ.published ++ [(s, row)] } : Broker J).modSub s
        (fun req => { req with qosQueue := q })) :=
    fun q => Frame.modSub (by intro p hp r; cases p <;> simp_all [SubRequester.Agree])
  split at h
  · simp only [Option.bind_eq_some_iff] at h
    obtain ⟨q, -, h⟩ := h
    refine hpub.trans (.trans (.modSub ?_) ((Frame.sendQueuedMessages h).mono (by decide)))
    intro p hp r
    cases p <;> simp_all [SubRequester.Agree]
  · split at h
    · cases h
      exact hpub.trans ((Frame.putSender _ _ _ _).mono (by decide))
    · split at h
      · exact hpub.trans ((hqueue _).trans ((Frame.clearQosQueue h).mono (by decide)))
      · exact hpub.trans ((hqueue _).trans ((Frame.serializeQosQueue h).mono (by decide)))

/-- A fold of steps with one frame has that frame. -/
theorem foldlM {α : Type} {ps : List Part} {f : Broker J → α → Option (Broker J)} {l : List α}
    (hf : ∀ σ a σ', f σ a = some σ' → Frame ps σ σ') (h : l.foldlM f σ = some σ') : Frame ps σ σ' := by
  induction l generalizing σ with
  | nil => cases h; exact .refl _ _
  | cons a l ih =>
    simp only [List.foldlM_cons, Option.bind_eq_bind, Option.bind_eq_some_iff] at h
    obtain ⟨τ, hτ, h⟩ := h
    exact (hf _ _ _ hτ).trans (ih h)

theorem brokerUpdateSubReqs {st : StreamId} (h : brokerUpdateSubReqs cfg σ st = some σ') :
    Frame updateParts σ σ' := by
  simp only [Broker.brokerUpdateSubReqs, Option.bind_eq_bind, Option.bind_eq_some_iff] at h
  obtain ⟨stream, -, h⟩ := h
  split at h
  · cases h; exact .refl _ _
  · exact Frame.foldlM (fun _ _ _ h => .brokerUpdateSubReq h) h

theorem brokerUpdateSubStream {st : StreamId} {row : Row J}
    (h : brokerUpdateSubStream cfg σ st row = some σ') : Frame (.values :: updateParts) σ σ' := by
  simp only [Broker.brokerUpdateSubStream, Option.bind_eq_bind, Option.bind_eq_some_iff] at h
  obtain ⟨stream, -, h⟩ := h
  refine Frame.trans (.modStream ?_) ((Frame.brokerUpdateSubReqs h).mono (by decide))
  intro p hp r
  cases p <;> simp_all [BrokerSubStream.Agree]

theorem brokerUpdateSubStreamValue {st : StreamId} {value now : J} {ts : Option J}
    (h : brokerUpdateSubStreamValue cfg σ st value ts now = some σ') :
    Frame (.values :: updateParts) σ σ' := .brokerUpdateSubStream h

theorem brokerUpdateStreamQos {st : Option StreamId} (h : brokerUpdateStreamQos σ st = some σ') :
    Frame [.values, .resp, .link] σ σ' := by
  simp only [Broker.brokerUpdateStreamQos] at h
  split at h
  · cases h; exact .refl _ _
  · simp only [Option.bind_eq_bind, Option.bind_eq_some_iff] at h
    obtain ⟨stream, -, h⟩ := h
    split at h
    · simp only [Option.bind_eq_some_iff] at h
      obtain ⟨maxQos, -, node, -, h⟩ := h
      have hmod : ∀ st : StreamId, Frame [.values, .resp, .link] σ
          (σ.modStream st (fun stream => { stream with respQos := maxQos })) :=
        fun st => Frame.modStream (by intro p hp r; cases p <;> simp_all [BrokerSubStream.Agree])
      split at h
      · exact (hmod _).trans ((Frame.sendSubscribeRequest h).mono (by decide))
      · cases h; exact hmod _
    · cases h; exact .refl _ _

theorem brokerUpdateSubQos {s : SubId} {qos : Nat} (h : brokerUpdateSubQos σ s qos = some σ') :
    Frame [.qos, .qosQueue, .storage, .values, .resp, .link] σ σ' := by
  simp only [Broker.brokerUpdateSubQos, Option.bind_eq_bind, Option.bind_eq_some_iff] at h
  obtain ⟨req, -, h⟩ := h
  split at h
  · cases h; exact .refl _ _
  · simp only [Option.bind_eq_some_iff] at h
    obtain ⟨τ, hτ, υ, hυ, h⟩ := h
    have h1 : Frame [.qos, .qosQueue, .storage, .values, .resp, .link] σ τ := by
      refine Frame.trans (.modSub (f := fun req => { req with qos := qos }) ?_)
        ((Frame.serializeIf hτ).mono (by decide))
      intro p hp r
      cases p <;> simp_all [SubRequester.Agree]
    have h2 : Frame [.qos, .qosQueue, .storage, .values, .resp, .link] τ υ := by
      refine Frame.trans (.modSub ?_) ((Frame.brokerUpdateStreamQos hυ).mono (by decide))
      intro p hp r
      cases p <;> simp_all [SubRequester.Agree]
    exact (h1.trans h2).trans ((Frame.serializeIf h).mono (by decide))

/-! ## Pending lists and streams -/

theorem brokerSubscribeLocalNonexistent (σ : Broker J) (path : CString) (s : SubId) :
    Frame [.place, .pending] σ (σ.brokerSubscribeLocalNonexistent path s) := by
  refine ((Frame.setPending σ _ _).mono (by decide)).trans (.modSub ?_)
  intro p hp r
  cases p <;> simp_all [SubRequester.Agree]

theorem brokerSubscribeDisconnectedRemote {path : CString} {s : SubId}
    (h : σ.brokerSubscribeDisconnectedRemote path s = some σ') : Frame [.place, .pending] σ σ' := by
  simp only [Broker.brokerSubscribeDisconnectedRemote, Option.bind_eq_bind, Option.bind_eq_some_iff] at h
  obtain ⟨len, -, h⟩ := h
  split at h
  · cases h; exact .refl _ _
  · cases h
    refine ((Frame.setPending σ _ _).mono (by decide)).trans (.modSub ?_)
    intro p hp r
    cases p <;> simp_all [SubRequester.Agree]

theorem unlinkPending (σ : Broker J) (s : SubId) (key : PendingKey) :
    Frame [.pending] σ (σ.unlinkPending s key) := by
  unfold Broker.unlinkPending
  split <;> split <;> first | exact .refl _ _ | exact .setPending _ _ _

theorem subsListFree (σ : Broker J) (subs : List SubId) : Frame [.place] σ (σ.subsListFree subs) := by
  induction subs generalizing σ with
  | nil => exact .refl _ _
  | cons s rest ih =>
    refine Frame.trans (.modSub ?_) (ih _)
    intro p hp r
    cases p <;> simp_all [SubRequester.Agree]

theorem attach (σ : Broker J) (s : SubId) (st : StreamId) (d : DownId) :
    Frame [.place, .streams] σ (σ.attach s st d) := by
  refine Frame.trans (.modSub ?_) (.modStream ?_)
  · intro p hp r
    cases p <;> simp_all [SubRequester.Agree]
  · intro p hp r
    cases p <;> simp_all [BrokerSubStream.Agree]

theorem sendLastValue {s : SubId} {st : StreamId} (h : sendLastValue cfg σ s st = some σ') :
    Frame updateParts σ σ' := by
  simp only [Broker.sendLastValue, Option.bind_eq_bind, Option.bind_eq_some_iff] at h
  obtain ⟨stream, -, h⟩ := h
  split at h
  · cases h; exact .refl _ _
  · exact .brokerUpdateSubReq h

theorem initLocalStream (σ : Broker J) (n : NodeId) :
    Frame [.streams, .values, .subStream] σ (σ.initLocalStream n).1 := by
  refine ((Frame.setStream σ _).mono (by decide)).trans (.modNode ?_)
  intro p hp r
  cases p <;> simp_all [BrokerNode.Agree]

theorem localStream {n : NodeId} {node : BrokerNode J} {now : J} {st : StreamId}
    (h : σ.localStream cfg n node now = some (σ', st)) :
    Frame (.streams :: .subStream :: .values :: updateParts) σ σ' := by
  unfold Broker.localStream at h
  split at h
  · cases h; exact .refl _ _
  · cases h; exact (Frame.initLocalStream σ n).mono (by decide)
  · simp only [Option.map_eq_some_iff, Prod.mk.injEq] at h
    obtain ⟨τ, hτ, rfl, -⟩ := h
    exact ((Frame.initLocalStream σ n).mono (by decide)).trans
      ((Frame.brokerUpdateSubStreamValue hτ).mono (by decide))

theorem brokerHandleLocalSubscribe {n : NodeId} {s : SubId} {now : J}
    (h : σ.brokerHandleLocalSubscribe cfg n s now = some σ') : Frame attachParts σ σ' := by
  simp only [Broker.brokerHandleLocalSubscribe, Option.bind_eq_bind, Option.bind_eq_some_iff] at h
  obtain ⟨node, -, req, -, ⟨τ, st⟩, hτ, h⟩ := h
  exact ((Frame.localStream hτ).mono (by decide)).trans
    (((Frame.attach _ _ _ _).mono (by decide)).trans ((Frame.sendLastValue h).mono (by decide)))

theorem remoteStream (σ : Broker J) (d : DownId) (node : DownstreamNode J) (respPath : CString) :
    Frame [.streams, .values, .resp] σ (σ.remoteStream d node respPath).1 := by
  unfold Broker.remoteStream
  split
  · exact .refl _ _
  · refine ((Frame.setStream σ _).mono (by decide)).trans (.modDnode ?_)
    intro p hp n _
    cases p <;> simp_all [DownstreamNode.Agree, linkFrames]

theorem brokerSubscribeRemote {d : DownId} {s : SubId} {respPath : CString}
    (h : σ.brokerSubscribeRemote cfg d s respPath = some σ') : Frame attachParts σ σ' := by
  simp only [Broker.brokerSubscribeRemote, Option.bind_eq_bind, Option.bind_eq_some_iff] at h
  obtain ⟨node, -, req, -, τ, hτ, h⟩ := h
  refine ((Frame.remoteStream σ d node respPath).mono (by decide)).trans ?_
  exact ((Frame.attach _ _ _ _).mono (by decide)).trans
    (((Frame.brokerUpdateStreamQos hτ).mono (by decide)).trans ((Frame.sendLastValue h).mono (by decide)))

theorem detachRemote {subs : List SubId} (h : σ.detachRemote subs = some σ') :
    Frame [.place, .pending] σ σ' := by
  induction subs generalizing σ with
  | nil => cases h; exact .refl _ _
  | cons s rest ih =>
    simp only [Broker.detachRemote, Option.bind_eq_bind, Option.bind_eq_some_iff] at h
    obtain ⟨req, -, τ, hτ, h⟩ := h
    refine Frame.trans (.modSub ?_) ((Frame.brokerSubscribeDisconnectedRemote hτ).trans (ih h))
    intro p hp r
    cases p <;> simp_all [SubRequester.Agree]

theorem detachLocal {subs : List SubId} (h : σ.detachLocal subs = some σ') :
    Frame [.place, .pending] σ σ' := by
  induction subs generalizing σ with
  | nil => cases h; exact .refl _ _
  | cons s rest ih =>
    simp only [Broker.detachLocal, Option.bind_eq_bind, Option.bind_eq_some_iff] at h
    obtain ⟨req, -, h⟩ := h
    refine Frame.trans (.modSub ?_) ((Frame.brokerSubscribeLocalNonexistent _ _ _).trans (ih h))
    intro p hp r
    cases p <;> simp_all [SubRequester.Agree]

theorem brokerStreamFree {st : StreamId} (h : σ.brokerStreamFree st = some σ') :
    Frame streamFreeParts σ σ' := by
  have hfree : ∀ τ : Broker J, Frame streamFreeParts τ { τ with stream := τ.stream.free st } :=
    fun τ => (Frame.setStream τ _).mono (by decide)
  simp only [Broker.brokerStreamFree, Option.bind_eq_bind, Option.bind_eq_some_iff] at h
  obtain ⟨stream, -, h⟩ := h
  split at h
  · simp only [Option.bind_eq_some_iff] at h
    obtain ⟨node, -, τ, hτ, υ, hυ, h⟩ := h
    cases h
    refine ((Frame.detachRemote hτ).mono (by decide)).trans
      (((Frame.brokerMsgSendUnsubscribe hυ).mono (by decide)).trans (Frame.trans (.modDnode ?_) (hfree _)))
    intro p hp n _
    cases p <;> simp_all [DownstreamNode.Agree, linkFrames]
  · simp only [Option.bind_eq_some_iff] at h
    obtain ⟨node, -, τ, hτ, h⟩ := h
    cases h
    refine ((Frame.detachLocal hτ).mono (by decide)).trans (Frame.trans (.modNode ?_) (hfree _))
    intro p hp n
    cases p <;> simp_all [BrokerNode.Agree]

/-! ## Freeing a SubRequester -/

theorem dropIndexes (σ : Broker J) (req : SubRequester J) : Frame [.index] σ (σ.dropIndexes req) := by
  refine .modDnode ?_
  intro p hp n _
  cases p <;> simp_all [DownstreamNode.Agree, linkFrames]

theorem dropPending (σ : Broker J) (s : SubId) (req : SubRequester J) :
    Frame [.pending, .place] σ (σ.dropPending s req) := by
  unfold Broker.dropPending
  split
  · exact .refl _ _
  · refine ((Frame.unlinkPending _ _ _).mono (by decide)).trans (.modSub ?_)
    intro p hp r
    cases p <;> simp_all [SubRequester.Agree]

theorem leaveStream {req : SubRequester J} (h : σ.leaveStream req = some σ') :
    Frame streamFreeParts σ σ' := by
  simp only [Broker.leaveStream] at h
  split at h
  · cases h; exact .refl _ _
  · simp only [Option.bind_eq_bind, Option.bind_eq_some_iff] at h
    obtain ⟨stream, -, h⟩ := h
    have hmod : ∀ (st : StreamId) (m : AssocMap DownId SubId), Frame streamFreeParts σ
        (σ.modStream st (fun stream => { stream with reqSubs := m })) :=
      fun st m => Frame.modStream (by intro p hp r; cases p <;> simp_all [BrokerSubStream.Agree])
    split at h
    · exact (hmod _ _).trans (.brokerStreamFree h)
    · cases h; exact hmod _ _

theorem dropStored {s : SubId} {req : SubRequester J} (h : σ.dropStored s req = some σ') :
    Frame [.storage] σ σ' := by
  simp only [Broker.dropStored] at h
  split at h
  · simp only [Option.bind_eq_bind, Option.bind_eq_some_iff] at h
    obtain ⟨node, -, τ, hτ, h⟩ := h
    cases h
    exact (Frame.serializeQosQueue hτ).trans (.setStorage _ _)
  · cases h; exact .refl _ _

theorem dropQosQueue {s : SubId} {req : SubRequester J} (h : σ.dropQosQueue s req = some σ') :
    Frame [.qosQueue, .storage] σ σ' := by
  unfold Broker.dropQosQueue at h
  split at h
  · exact .clearQosQueue h
  · cases h; exact .refl _ _

/-- What `broker_free_sub_requester` changes before it looks at `pendingAcks`. -/
theorem releaseSub {s : SubId} (h : σ.releaseSub s = some σ') :
    Frame (.index :: .qosQueue :: .storage :: streamFreeParts) σ σ' := by
  simp only [Broker.releaseSub, Option.bind_eq_bind, Option.bind_eq_some_iff] at h
  obtain ⟨req, -, node, -, τ, hτ, υ, hυ, h⟩ := h
  refine ((Frame.dropIndexes σ req).mono (by decide)).trans (((Frame.dropPending _ s req).mono (by decide)).trans ?_)
  exact ((Frame.leaveStream hτ).mono (by decide)).trans
    (((Frame.dropStored hυ).mono (by decide)).trans ((Frame.dropQosQueue h).mono (by decide)))

theorem purgePendingAcks {s : SubId} (h : σ.purgePendingAcks s = some σ') : Frame [.queue, .acks] σ σ' := by
  simp only [Broker.purgePendingAcks, Option.bind_eq_bind, Option.bind_eq_some_iff] at h
  obtain ⟨req, -, h⟩ := h
  split at h
  · cases h; exact .refl _ _
  · simp only [Option.bind_eq_some_iff] at h
    obtain ⟨node, -, vec, -, h⟩ := h
    cases h
    refine Frame.trans (.modDnode ?_) (.modSub ?_)
    · intro p hp n _
      cases p <;> simp_all [DownstreamNode.Agree, linkFrames]
    · intro p hp r
      cases p <;> simp_all [SubRequester.Agree]

theorem brokerFreeSubRequester {s : SubId} (h : σ.brokerFreeSubRequester s = some σ') :
    Frame freeSubParts σ σ' := by
  simp only [Broker.brokerFreeSubRequester, Option.bind_eq_bind, Option.bind_eq_some_iff] at h
  obtain ⟨τ, hτ, υ, hυ, h⟩ := h
  cases h
  exact ((Frame.releaseSub hτ).mono (by decide)).trans
    (((Frame.purgePendingAcks hυ).mono (by decide)).trans ((Frame.setSub _ _).mono (by decide)))

/-! ## Closing a link -/

theorem collectNonQos {subs : List SubId} {l : List SubId} (h : σ.collectNonQos subs = some (σ', l)) :
    Frame [.queue] σ σ' := by
  induction subs generalizing σ l with
  | nil => cases h; exact .refl _ _
  | cons s rest ih =>
    simp only [Broker.collectNonQos, Option.bind_eq_bind, Option.bind_eq_some_iff] at h
    obtain ⟨req, -, h⟩ := h
    split at h
    · simp only [Option.bind_eq_some_iff] at h
      obtain ⟨⟨τ, l'⟩, hτ, h⟩ := h
      cases h
      exact ih hτ
    · exact (Frame.brokerClearMesssageIds σ s).trans (ih h)

theorem resetSids {subs : List SubId} (h : σ.resetSids subs = some σ') : Frame [.sid] σ σ' := by
  refine Frame.foldlM (fun σ s σ' h => ?_) h
  simp only [Option.bind_eq_bind, Option.bind_eq_some_iff] at h
  obtain ⟨req, -, h⟩ := h
  cases h
  refine .modSub ?_
  intro p hp r
  cases p <;> simp_all [SubRequester.Agree]

theorem freePendingAcks (σ : Broker J) (d : DownId) : Frame [.acks] σ
    (σ.modDnode d (fun node => { node with pendingAcks := node.pendingAcks.map Vec.free })) := by
  refine .modDnode ?_
  intro p hp n _
  cases p <;> simp_all [DownstreamNode.Agree, linkFrames]

theorem clearSids (σ : Broker J) (d : DownId) : Frame [.index] σ
    (σ.modDnode d (fun node => { node with reqSubSids := .empty })) := by
  refine .modDnode ?_
  intro p hp n _
  cases p <;> simp_all [DownstreamNode.Agree, linkFrames]

theorem dropLink (σ : Broker J) (d : DownId) : Frame [.link, .wire] σ
    (σ.modDnode d (fun node => { node with link := none })) := by
  refine .modDnode ?_
  intro p hp n _
  cases p <;> simp_all [DownstreamNode.Agree]

theorem brokerRemoteDslinkFree {d : DownId} (h : σ.brokerRemoteDslinkFree d = some σ') :
    Frame freeSubParts σ σ' := by
  simp only [Broker.brokerRemoteDslinkFree, Option.bind_eq_bind, Option.bind_eq_some_iff] at h
  obtain ⟨node, -, ⟨τ, l⟩, hτ, υ, hυ, node', -, φ, hφ, h⟩ := h
  obtain rfl := Option.some.inj h
  refine ((Frame.freePendingAcks σ d).mono (by decide)).trans (((Frame.collectNonQos hτ).mono (by decide)).trans ?_)
  refine Frame.trans (.foldlM (fun _ _ _ h => .brokerFreeSubRequester h) hυ) ?_
  exact ((Frame.resetSids hφ).mono (by decide)).trans ((Frame.clearSids φ d).mono (by decide))

theorem brokerCloseLink {d : DownId} (h : σ.brokerCloseLink d = some σ') :
    Frame (.wire :: freeSubParts) σ σ' := by
  simp only [Broker.brokerCloseLink, Option.bind_eq_bind, Option.bind_eq_some_iff] at h
  obtain ⟨τ, hτ, h⟩ := h
  obtain rfl := Option.some.inj h
  exact ((Frame.brokerRemoteDslinkFree hτ).mono (by decide)).trans ((Frame.dropLink τ d).mono (by decide))

/-! ## Nodes -/

theorem leaveParent {parent : Option NodeId} {name : CString} (h : σ.leaveParent parent name = some σ') :
    Frame [.nodes] σ σ' := by
  unfold Broker.leaveParent at h
  split at h
  · cases h; exact .refl _ _
  · simp only [Option.map_eq_some_iff] at h
    obtain ⟨node, -, rfl⟩ := h
    refine .modNode ?_
    intro p hp r
    cases p <;> simp_all [BrokerNode.Agree]

theorem freeDownstreamNode {d : DownId} (h : σ.freeDownstreamNode d = some σ') :
    Frame dnodeParts σ σ' := by
  simp only [Broker.freeDownstreamNode, Option.bind_eq_bind, Option.bind_eq_some_iff] at h
  obtain ⟨node, -, h⟩ := h
  split at h
  · cases h
  · simp only [Option.bind_eq_some_iff] at h
    obtain ⟨τ, hτ, h⟩ := h
    cases h
    exact ((Frame.leaveParent hτ).mono (by decide)).trans ((Frame.setDnode _ _).mono (by decide))

theorem brokerNodeAdd {parent : NodeId} {name : CString} {r : Option NodeId}
    (h : σ.brokerNodeAdd parent name = some (σ', r)) : Frame nodeParts σ σ' := by
  simp only [Broker.brokerNodeAdd, Option.bind_eq_bind, Option.bind_eq_some_iff] at h
  obtain ⟨node, -, h⟩ := h
  split at h
  · cases h; exact .refl _ _
  · cases h
    refine ((Frame.setNode σ _).mono (by decide)).trans (.modNode ?_)
    intro p hp r
    cases p <;> simp_all [BrokerNode.Agree]

theorem brokerInitDownstreamNode {parent : NodeId} {name : CString} {r : DownId}
    (h : σ.brokerInitDownstreamNode parent name = some (σ', r)) : Frame dnodeParts σ σ' := by
  simp only [Broker.brokerInitDownstreamNode, Option.bind_eq_bind, Option.bind_eq_some_iff] at h
  obtain ⟨node, -, h⟩ := h
  cases h
  refine ((Frame.setDnode σ _).mono (by decide)).trans (.modNode ?_)
  intro p hp r
  cases p <;> simp_all [BrokerNode.Agree]

end Frame

end Broker

end DSLink
