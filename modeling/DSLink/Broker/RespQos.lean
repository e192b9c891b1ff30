import DSLink.Broker.Demands

/-!
# `Broker.RespQos` — a link is asked for the largest qos

What is demanded in a reachable state. `broker_update_stream_qos` takes the maximum again when a requester comes or
changes its qos; `broker_free_sub_requester` does not when one goes, and a new stream starts with the qos 255, so
that a first request for 255 is not sent. In a run without these two every stream has its maximum and its link was
asked for it.

## Contents
- `Broker.demands` and the functions that leave it alone.
- `brokerSubscribeRemote`, `brokerUpdateSubQos`, `brokerFreeSubRequester`, `brokerDslinkConnect`.
- `QosKept`, `resp_qos_max`: every run whose events keep the maximum.
-/

namespace DSLink

variable {J : Type} {cfg : Config} {σ σ' : Broker J}

/-- A stream with its requesters. -/
def BrokerSubStream.demand (stream : BrokerSubStream J) : DemandStream :=
  ⟨stream.respNode, stream.respSid, stream.respQos, stream.remotePath, stream.reqSubs.get⟩

namespace Broker

/-- What is demanded of the links in a state. -/
def demands (σ : Broker J) : Demands where
  qos s := (σ.sub.get s).map SubRequester.qos
  stream st := (σ.stream.get st).map BrokerSubStream.demand
  resp d := (σ.dnode.get d).map (fun node => node.respSubStreams.get)
  asks := σ.reads messageAsk
  home n := (σ.node.get n).bind BrokerNode.subStream

theorem demands_qos {s : SubId} {req : SubRequester J} (h : σ.sub.get s = some req) : σ.demands.qos s = some req.qos := by
  simp [demands, h]

theorem demands_stream {st : StreamId} {stream : BrokerSubStream J} (h : σ.stream.get st = some stream) :
    σ.demands.stream st = some stream.demand := by
  simp [demands, h]

theorem demands_resp {d : DownId} {node : DownstreamNode J} (h : σ.dnode.get d = some node) :
    σ.demands.resp d = some node.respSubStreams.get := by
  simp [demands, h]

/-! ## Functions that leave the demands alone -/

theorem Frame.demands_qos {ps : List Part} (h : Frame ps σ σ') (hqos : Part.qos ∉ ps) : σ'.demands.qos = σ.demands.qos := by
  have h1 : Heap.Rel (SubRequester.Agree .qos) σ.sub σ'.sub := h _ hqos
  funext s
  show (σ'.sub.get s).map _ = (σ.sub.get s).map _
  cases hg : σ.sub.get s with
  | none => rw [h1.get_none.mpr hg]
  | some req =>
    obtain ⟨req', hreq', hq⟩ := h1.get hg
    rw [hreq', Option.map_some, Option.map_some, show req'.qos = req.qos from hq]

theorem Frame.demands_stream {ps : List Part} (h : Frame ps σ σ') (hstreams : Part.streams ∉ ps)
    (hvalues : Part.values ∉ ps) : σ'.demands.stream = σ.demands.stream := by
  funext st
  show (σ'.stream.get st).map _ = (σ.stream.get st).map _
  rw [h.stream_get hstreams hvalues]

theorem Frame.demands_home {ps : List Part} (h : Frame ps σ σ') (hsub : Part.subStream ∉ ps) :
    σ'.demands.home = σ.demands.home := by
  have h1 : Heap.Rel (BrokerNode.Agree .subStream) σ.node σ'.node := h _ hsub
  funext n
  show (σ'.node.get n).bind _ = (σ.node.get n).bind _
  cases hg : σ.node.get n with
  | none => rw [h1.get_none.mpr hg]
  | some node =>
    obtain ⟨node', hnode', hs⟩ := h1.get hg
    rw [hnode']
    exact hs

/-- What changes no qos, no stream and no node keeps the demands, if it sends no request. -/
theorem Frame.demands {ps : List Part} (h : Frame ps σ σ')
    (hps : Part.qos ∉ ps ∧ Part.streams ∉ ps ∧ Part.values ∉ ps ∧ Part.resp ∉ ps ∧ Part.subStream ∉ ps)
    (hasks : σ'.reads messageAsk = σ.reads messageAsk) : σ'.demands = σ.demands :=
  Demands.ext (h.demands_qos hps.1) (h.demands_stream hps.2.1 hps.2.2.1) (h.seats_resp hps.2.2.2.1) hasks
    (h.demands_home hps.2.2.2.2)

theorem brokerUpdateSubReq_demands {s : SubId} {row : Row J} (h : brokerUpdateSubReq cfg σ s row = some σ') :
    σ'.demands = σ.demands :=
  (Frame.brokerUpdateSubReq h).demands (by decide) (brokerUpdateSubReq_reads unread_messageAsk h)

theorem sendQueuedMessages_demands {s : SubId} (h : sendQueuedMessages cfg σ s = some σ') : σ'.demands = σ.demands :=
  (Frame.sendQueuedMessages h).demands (by decide) (sendQueuedMessages_reads unread_messageAsk h)

theorem sendLastValue_demands {s : SubId} {st : StreamId} (h : sendLastValue cfg σ s st = some σ') :
    σ'.demands = σ.demands :=
  (Frame.sendLastValue h).demands (by decide) (sendLastValue_reads unread_messageAsk h)

theorem brokerUpdateSubReqQos_demands {s : SubId} (h : brokerUpdateSubReqQos σ s = some σ') : σ'.demands = σ.demands := by
  apply (Frame.brokerUpdateSubReqQos h).demands (by decide)
  simp only [brokerUpdateSubReqQos, Option.bind_eq_bind, Option.bind_eq_some_iff] at h
  obtain ⟨req, hs, node, hd, h⟩ := h
  split at h
  · cases h
    rfl
  · rename_i link hlink
    rw [(Frame.clearQosQueue h).reads (by decide)]
    apply reads_modDnode_same
    intro node' hd'
    cases hd.symm.trans hd'
    show some ((brokerWsSendObj link _).1.reads messageAsk) = _
    rw [reads_wsSendObj, hlink]
    exact congrArg some (List.append_nil _)

theorem checkSubscriptionAck_demands {d : DownId} {k : Nat} (h : checkSubscriptionAck cfg σ d k = some σ') :
    σ'.demands = σ.demands := by
  apply (Frame.checkSubscriptionAck h).demands (by decide)
  simp only [checkSubscriptionAck, Option.bind_eq_bind, Option.bind_eq_some_iff] at h
  obtain ⟨node, -, τ, hτ, h⟩ := h
  obtain rfl := Option.some.inj h
  have hloop : ∀ (n : Nat) {σ τ : Broker J}, ackLoop cfg d n σ = some τ → τ.reads messageAsk = σ.reads messageAsk := by
    intro n
    induction n with
    | zero =>
      intro σ τ h
      cases h
      rfl
    | succ n ih =>
      intro σ τ h
      simp only [ackLoop, ackOne, Option.bind_eq_bind, Option.bind_eq_some_iff] at h
      obtain ⟨node, -, vec, -, pack, -, υ, ⟨req, -, hone⟩, h⟩ := h
      rw [ih h]
      split at hone
      · rw [sendQueuedMessages_reads unread_messageAsk hone]
        rfl
      · cases hone
        rfl
  rw [← hloop _ hτ]
  exact reads_modDnode_same (fun _ _ => rfl)

theorem sendOther_demands {d : DownId} (h : σ.sendOther d = some σ') : σ'.demands = σ.demands := by
  apply (Frame.sendOther h).demands (by decide)
  simp only [Broker.sendOther, Option.bind_eq_bind, Option.bind_eq_some_iff] at h
  obtain ⟨node, hd, node', hsend, h⟩ := h
  obtain rfl := Option.some.inj h
  exact wsSend_reads_none hd node.rid hsend rfl

theorem demands_modStream_same {st : StreamId} {f : BrokerSubStream J → BrokerSubStream J}
    (hf : ∀ stream, (f stream).demand = stream.demand) : (σ.modStream st f).demands = σ.demands := by
  ext1
  · rfl
  · funext t
    show ((σ.stream.modify st f).get t).map _ = (σ.stream.get t).map _
    rw [Heap.get_modify]
    split
    · rename_i ht
      rw [ht, Option.map_map]
      apply Option.map_congr
      intro stream _
      exact hf stream
    · rfl
  · rfl
  · rfl
  · rfl

theorem brokerUpdateSubStream_demands {st : StreamId} {row : Row J}
    (h : brokerUpdateSubStream cfg σ st row = some σ') : σ'.demands = σ.demands := by
  refine Calls.invariant (fun τ => τ.demands = σ.demands) (brokerUpdateSubStream_calls h) ?_ rfl
  intro τ c υ hτ hc hrun
  rw [← hτ]
  cases c with
  | update s row => exact brokerUpdateSubReq_demands hrun
  | setValue st row =>
    cases hrun
    exact demands_modStream_same (fun _ => rfl)
  | _ => exact hc.elim

theorem demands_modStream {st : StreamId} (f : BrokerSubStream J → BrokerSubStream J) {stream : BrokerSubStream J}
    (hst : σ.stream.get st = some stream) : (σ.modStream st f).demands =
      { σ.demands with stream := Function.update σ.demands.stream st (some (f stream).demand) } := by
  ext1
  · rfl
  · funext t
    show ((σ.stream.modify st f).get t).map _ = Function.update σ.demands.stream st _ t
    rw [Heap.get_modify, Function.update_apply, hst]
    split <;> rfl
  · rfl
  · rfl
  · rfl

/-! ## Streams of local nodes -/

theorem initLocalStream_demands_ok {ex late : StreamId → Prop} (h : σ.demands.Ok ex late) (n : NodeId) :
    (σ.initLocalStream n).1.demands.Ok ex late := by
  have hfresh : σ.demands.stream σ.stream.next = none := by simp [demands]
  refine (h.setLocal σ.stream.next ⟨.regular n, 0, 0, none, fun _ => none⟩ n ?_ rfl
    (σ.initLocalStream n).1.demands.home ?_).congr ?_
  · intro y hy
    rw [hfresh] at hy
    cases hy
  · intro m t hm
    have hm : ((σ.node.modify n _).get m).bind _ = some t := hm
    rw [Heap.get_modify] at hm
    split at hm
    · rename_i hmn
      cases hg : σ.node.get n with
      | none =>
        rw [hg] at hm
        cases hm
      | some node =>
        rw [hg] at hm
        exact .inr ⟨hmn, (Option.some.inj hm).symm⟩
    · exact .inl hm
  · ext1
    · rfl
    · funext t
      show ((σ.stream.alloc _).get t).map _ = Function.update σ.demands.stream _ _ t
      rw [Heap.get_alloc, Function.update_apply]
      split <;> rfl
    · rfl
    · rfl
    · rfl

/-- A seat in a stream changes its requesters. -/
theorem attach_demands {s : SubId} {st : StreamId} {d : DownId} {stream : BrokerSubStream J}
    (hst : σ.stream.get st = some stream) : (σ.attach s st d).demands = { σ.demands with
      stream := Function.update σ.demands.stream st (some { stream with reqSubs := stream.reqSubs.set d s }.demand) } := by
  have hsub : (σ.modSub s (fun req => { req with stream := some st })).demands = σ.demands := by
    have hf : Frame [.place] σ (σ.modSub s (fun req => { req with stream := some st })) := by
      apply Frame.modSub
      intro p hp r
      cases p <;> simp_all [SubRequester.Agree]
    exact hf.demands (by decide) rfl
  have hmod := demands_modStream (σ := σ.modSub s (fun req => { req with stream := some st }))
    (fun stream => { stream with reqSubs := stream.reqSubs.set d s }) hst
  rw [hsub] at hmod
  exact hmod

/-- A seat in a stream of a local node is no matter of links. -/
theorem attach_demands_ok {ex late : StreamId → Prop} (h : σ.demands.Ok ex late) {n : NodeId} {st : StreamId}
    (hhome : σ.demands.home n = some st) (s : SubId) (d : DownId) : (σ.attach s st d).demands.Ok ex late := by
  obtain ⟨x, hx, hxn⟩ := h.home n st hhome
  obtain ⟨stream, hst, rfl⟩ := Option.map_eq_some_iff.mp hx
  refine (h.setLocal st { stream with reqSubs := stream.reqSubs.set d s }.demand n ?_ hxn
    σ.demands.home (fun m t hm => .inl hm)).congr ?_
  · intro y hy
    cases hx.symm.trans hy
    exact hxn
  · exact attach_demands hst

theorem brokerHandleLocalSubscribe_demands_ok {n : NodeId} {s : SubId} {now : J} (h : σ.demands.AllOk)
    (hs : σ.brokerHandleLocalSubscribe cfg n s now = some σ') : σ'.demands.AllOk := by
  simp only [brokerHandleLocalSubscribe, Option.bind_eq_bind, Option.bind_eq_some_iff] at hs
  obtain ⟨node, hn, req, -, ⟨τ, st⟩, hτ, hs⟩ := hs
  have hnew : ∀ υ : Broker J, υ.demands = (σ.initLocalStream n).1.demands →
      υ.demands.AllOk ∧ υ.demands.home n = some (σ.initLocalStream n).2 := by
    intro υ hυ
    rw [hυ]
    refine ⟨initLocalStream_demands_ok h n, ?_⟩
    show ((σ.node.modify n _).get n).bind _ = _
    rw [Heap.get_modify_self, hn]
    rfl
  obtain ⟨hok, hhome⟩ : τ.demands.AllOk ∧ τ.demands.home n = some st := by
    unfold localStream at hτ
    split at hτ
    · rename_i st' hst
      cases hτ
      refine ⟨h, ?_⟩
      show (σ.node.get n).bind _ = some st
      rw [hn]
      exact hst
    · cases hτ
      exact hnew _ rfl
    · simp only [Option.map_eq_some_iff, Prod.mk.injEq] at hτ
      obtain ⟨υ, hυ, rfl, rfl⟩ := hτ
      exact hnew υ (brokerUpdateSubStream_demands hυ)
  rw [sendLastValue_demands hs]
  exact attach_demands_ok hok hhome s req.reqNode

theorem handlePendingSub_demands_ok {n : NodeId} {now : J} (h : σ.demands.AllOk)
    (hs : σ.handlePendingSub cfg n now = some σ') : σ'.demands.AllOk := by
  simp only [handlePendingSub, Option.bind_eq_bind, Option.bind_eq_some_iff] at hs
  obtain ⟨node, -, hs⟩ := hs
  split at hs
  · cases hs
    exact h
  · rename_i subs _
    simp only [Option.bind_eq_some_iff] at hs
    obtain ⟨τ, hτ, hs⟩ := hs
    obtain rfl := Option.some.inj hs
    rw [(Frame.subsListFree τ subs).demands (by decide) ((Frame.subsListFree τ subs).reads (by decide))]
    refine foldlM_invariant (fun σ => σ.demands.AllOk) ?_ hτ h
    exact fun _ _ _ _ hok hround => brokerHandleLocalSubscribe_demands_ok hok hround

/-! ## Streams that go -/

theorem brokerMsgSendUnsubscribe_demands {d : DownId} {sid : Nat} (h : σ.brokerMsgSendUnsubscribe d sid = some σ') :
    σ'.demands = σ.demands := by
  have hseats := brokerMsgSendUnsubscribe_seats h
  have hf := Frame.brokerMsgSendUnsubscribe h
  refine Demands.ext (hf.demands_qos (by decide)) (hf.demands_stream (by decide) (by decide))
    (congrArg Seats.resp hseats) ?_ (hf.demands_home (by decide))
  simp only [brokerMsgSendUnsubscribe, Option.bind_eq_bind, Option.bind_eq_some_iff] at h
  obtain ⟨node, hd, h⟩ := h
  split at h
  · cases h
    rfl
  · simp only [Option.bind_eq_some_iff] at h
    obtain ⟨node', hsend, h⟩ := h
    obtain rfl := Option.some.inj h
    exact wsSend_reads_none hd _ hsend rfl

/-- A stream goes out of all maps; its local node may have been in another one. -/
theorem brokerStreamFree_demands {ex late : StreamId → Prop} {st : StreamId} (h : σ.demands.Ok ex late)
    (hs : σ.brokerStreamFree st = some σ') : σ'.demands = { σ.demands.drop st with home := σ'.demands.home } ∧
      ∀ n t, σ'.demands.home n = some t → (σ.demands.drop st).home n = some t := by
  simp only [brokerStreamFree, Option.bind_eq_bind, Option.bind_eq_some_iff] at hs
  obtain ⟨stream, hst, hs⟩ := hs
  have hx := demands_stream hst
  have hfree : ∀ τ : Broker J, τ.demands = σ.demands → ∀ t,
      ((τ.stream.free st).get t).map BrokerSubStream.demand = Function.update σ.demands.stream st none t := by
    intro τ hτ t
    rw [Heap.get_free, Function.update_apply, ← hτ]
    split <;> rfl
  split at hs
  · -- a remote stream: it leaves the table of its link
    rename_i d hd
    simp only [Option.bind_eq_some_iff] at hs
    obtain ⟨node, hnode, τ, hτ, υ, hυ, hs⟩ := hs
    obtain rfl := Option.some.inj hs
    have hυσ : υ.demands = σ.demands :=
      (brokerMsgSendUnsubscribe_demands hυ).trans
        ((Frame.detachRemote hτ).demands (by decide) ((Frame.detachRemote hτ).reads (by decide)))
    obtain ⟨m, p, hm, hp, hmp⟩ := h.filed st _ d hx hd
    have hpath : stream.remotePath.getD [] = p := by
      rw [show stream.remotePath = some p from hp]
      rfl
    have hhome : υ.demands.home = (σ.demands.drop st).home := by
      funext n
      rw [hυσ]
      refine (butFor_eq_self (fun hc => ?_)).symm
      obtain ⟨y, hy, hyn⟩ := h.home n st hc
      cases hx.symm.trans hy
      rw [show stream.demand.respNode = .downstream d from hd] at hyn
      cases hyn
    refine ⟨?_, fun n t hn => by rw [← hhome]; exact hn⟩
    ext1
    · show υ.demands.qos = _
      rw [hυσ]
      rfl
    · funext t
      exact hfree υ hυσ t
    · funext e
      show ((υ.dnode.modify d _).get e).map _ = (σ.demands.resp e).map _
      rw [← hυσ, Heap.get_modify]
      show _ = ((υ.dnode.get e).map _).map _
      rw [Option.map_map]
      by_cases he : e = d
      · subst he
        rw [if_pos rfl, Option.map_map]
        apply Option.map_congr
        intro node' hnode'
        have hm' : σ.demands.resp e = some node'.respSubStreams.get := by
          rw [← hυσ]
          exact demands_resp hnode'
        obtain rfl := Option.some.inj (hm.symm.trans hm')
        funext q
        show (node'.respSubStreams.erase (stream.remotePath.getD [])).get q = butFor st _
        rw [hpath]
        -- the stream is listed under its own path only
        apply get_erase_butFor hmp
        intro q hq
        obtain ⟨y, hy, -, hyp⟩ := h.listed e _ q st hm hq
        cases hx.symm.trans hy
        exact Option.some.inj (hyp.symm.trans hp)
      · rw [if_neg he]
        apply Option.map_congr
        intro node' hnode'
        have hm' : σ.demands.resp e = some node'.respSubStreams.get := by
          rw [← hυσ]
          exact demands_resp hnode'
        funext q
        refine (butFor_eq_self (fun hc => he ?_)).symm
        obtain ⟨y, hy, hyd, -⟩ := h.listed e _ q st hm' hc
        cases hx.symm.trans hy
        exact NodeRef.downstream.inj (hyd.symm.trans hd)
    · show ({ υ.modDnode d _ with stream := υ.stream.free st } : Broker J).reads messageAsk = σ.demands.asks
      rw [← hυσ]
      exact reads_modDnode_same (σ := υ) (fun _ _ => rfl)
    · rfl
  · -- a stream of the broker's own node: no link has it
    rename_i n hn
    simp only [Option.bind_eq_some_iff] at hs
    obtain ⟨-, -, τ, hτ, hs⟩ := hs
    obtain rfl := Option.some.inj hs
    have hτσ : τ.demands = σ.demands :=
      (Frame.detachLocal hτ).demands (by decide) ((Frame.detachLocal hτ).reads (by decide))
    refine ⟨?_, ?_⟩
    · ext1
      · show τ.demands.qos = _
        rw [hτσ]
        rfl
      · funext t
        exact hfree τ hτσ t
      · funext e
        show τ.demands.resp e = (σ.demands.resp e).map _
        rw [hτσ]
        cases hr : σ.demands.resp e with
        | none => rfl
        | some m =>
          rw [Option.map_some]
          congr 1
          funext q
          refine (butFor_eq_self (fun hc => ?_)).symm
          obtain ⟨y, hy, hyd, -⟩ := h.listed e m q st hr hc
          cases hx.symm.trans hy
          rw [show stream.demand.respNode = .regular n from hn] at hyd
          cases hyd
      · show τ.demands.asks = _
        rw [hτσ]
        rfl
      · rfl
    · intro k t hk
      have hk : ((τ.node.modify n _).get k).bind _ = some t := hk
      rw [Heap.get_modify] at hk
      split at hk
      · cases hg : τ.node.get n <;> rw [hg] at hk <;> cases hk
      · rename_i hne
        have hk' : τ.demands.home k = some t := hk
        rw [hτσ] at hk'
        refine butFor_eq_some.mpr ⟨hk', ?_⟩
        rintro rfl
        obtain ⟨y, hy, hyn⟩ := h.home k t hk'
        cases hx.symm.trans hy
        exact hne (NodeRef.regular.inj (hyn.symm.trans hn))

theorem brokerStreamFree_demands_ok {ex late : StreamId → Prop} {st : StreamId} (h : σ.demands.Ok ex late)
    (hs : σ.brokerStreamFree st = some σ') : σ'.demands.Ok ex late := by
  obtain ⟨hdrop, hhome⟩ := brokerStreamFree_demands h hs
  rw [hdrop]
  exact (h.drop st).forget _ hhome

/-! ## The maximum -/

theorem maxQosOf_live {subs : List SubId} {q : Nat} (h : σ.maxQosOf subs = some q) :
    ∀ s ∈ subs, ∃ req, σ.sub.get s = some req := by
  induction subs generalizing q with
  | nil =>
    intro s hs
    cases hs
  | cons t subs ih =>
    simp only [maxQosOf, Option.bind_eq_bind, Option.bind_eq_some_iff] at h
    obtain ⟨req, hreq, q', hq', -⟩ := h
    intro s hs
    rcases List.mem_cons.mp hs with rfl | hs
    · exact ⟨req, hreq⟩
    · exact ih hq' s hs

/-- What `broker_update_stream_qos` computes is the largest qos. -/
theorem maxQosOf_top {stream : BrokerSubStream J} {q : Nat} (h : σ.maxQosOf stream.reqSubs.values = some q) :
    σ.demands.Top { stream with respQos := q }.demand := by
  obtain ⟨hle, hmax⟩ := maxQosOf_spec h
  have hlive := maxQosOf_live h
  have hmem : ∀ {e s}, stream.reqSubs.get e = some s → s ∈ stream.reqSubs.values :=
    fun he => AssocMap.mem_values.mpr ⟨_, he⟩
  constructor
  · intro e s hs
    obtain ⟨req, hreq⟩ := hlive s (hmem hs)
    exact ⟨req.qos, demands_qos hreq, hle s (hmem hs) req hreq⟩
  · rintro ⟨e, s, hs⟩
    rcases hmax with rfl | ⟨t, ht, req, hreq, hq⟩
    · obtain ⟨req, hreq⟩ := hlive s (hmem hs)
      refine ⟨e, s, hs, ?_⟩
      rw [demands_qos hreq, Nat.le_zero.mp (hle s (hmem hs) req hreq)]
      rfl
    · obtain ⟨e', he'⟩ := AssocMap.mem_values.mp ht
      exact ⟨e', t, he', by rw [demands_qos hreq, hq]; rfl⟩

/-- A request is sent. -/
theorem sendSubscribeRequest_demands {d : DownId} {p : CString} {sid qos : Nat}
    (h : sendSubscribeRequest σ d p sid qos = some σ') : σ'.demands = { σ.demands with
      asks := Function.update σ.demands.asks d ((σ.demands.asks d).map (fun l => l.map (· ++ [(p, sid, qos)]))) } := by
  have hseats := sendSubscribeRequest_seats h
  have hf := Frame.sendSubscribeRequest h
  refine Demands.ext (hf.demands_qos (by decide)) (hf.demands_stream (by decide) (by decide))
    (congrArg Seats.resp hseats) ?_ (hf.demands_home (by decide))
  simp only [sendSubscribeRequest, Option.bind_eq_bind, Option.bind_eq_some_iff] at h
  obtain ⟨node, hd, node', hws, h⟩ := h
  obtain rfl := Option.some.inj h
  obtain ⟨link, hlink, hreads⟩ := wsSend_reads (g := messageAsk) hd _ hws
  have hbefore : σ.demands.asks d = some (some (link.reads messageAsk)) :=
    reads_eq_some.mpr ⟨node, link, hd, hlink, rfl⟩
  show Broker.reads messageAsk _ = Function.update _ d _
  rw [hreads, hbefore]
  rfl

/-- The maximum is stored, and sent if it is another one and the link is there. -/
theorem brokerUpdateStreamQos_demands {st : StreamId} {stream : BrokerSubStream J} {d : DownId} {p : CString}
    {m : CString → Option StreamId} (hst : σ.stream.get st = some stream) (hd : stream.respNode = .downstream d)
    (hp : stream.remotePath = some p) (hm : σ.demands.resp d = some m) (hmp : m p = some st)
    (h : brokerUpdateStreamQos σ (some st) = some σ') : ∃ q sent, σ.maxQosOf stream.reqSubs.values = some q ∧
      σ'.demands = σ.demands.put d p st { stream with respQos := q }.demand sent ∧
      (sent = true ∨ σ.demands.asks d = some none ∨ q = stream.respQos) := by
  simp only [brokerUpdateStreamQos, hst, hp, hd, Option.bind_eq_bind, Option.bind_some, Option.bind_eq_some_iff] at h
  obtain ⟨q, hq, node, hnode, h⟩ := h
  have hmod := demands_modStream (fun stream => { stream with respQos := q }) hst
  have hsame := Demands.put_same hm hmp { stream with respQos := q }.demand
  split at h
  · rename_i hsend
    refine ⟨q, true, hq, ?_, .inl rfl⟩
    rw [sendSubscribeRequest_demands h, hmod.trans hsame.symm]
    rfl
  · rename_i hsend
    cases h
    refine ⟨q, false, hq, hmod.trans hsame.symm, .inr ?_⟩
    by_cases hsameq : q = stream.respQos
    · exact .inr hsameq
    · left
      have hlink : node.link = none := by
        rw [not_and] at hsend
        simpa using hsend hsameq
      show σ.reads messageAsk d = some none
      rw [reads_get (show σ.dnode.get d = some node from hnode), hlink]
      rfl

/-- After `broker_update_stream_qos` the stream needs no exception any more. -/
theorem brokerUpdateStreamQos_demands_ok {late : StreamId → Prop} {st : StreamId} {stream : BrokerSubStream J}
    {d : DownId} {p : CString} (h : σ.demands.Ok (· = st) (fun t => late t ∨ t = st))
    (hst : σ.stream.get st = some stream) (hd : stream.respNode = .downstream d) (hp : stream.remotePath = some p)
    (htold : σ.maxQosOf stream.reqSubs.values = some stream.respQos → ¬late st → σ.demands.Told stream.demand)
    (hs : brokerUpdateStreamQos σ (some st) = some σ') : σ'.demands.Ok (fun _ => False) late := by
  obtain ⟨m, p', hm, hp', hmp⟩ := h.filed st _ d (demands_stream hst) hd
  cases hp.symm.trans hp'
  obtain ⟨q, sent, hq, hput, hsent⟩ := brokerUpdateStreamQos_demands hst hd hp hm hmp hs
  rw [hput]
  refine Demands.Ok.put (h.mono (fun _ => .inr) (fun _ => id)) hm (.inl hmp) hd hp (fun _ => maxQosOf_top hq) ?_
  intro hlate
  rcases hsent with hsent | haway | rfl
  · exact .inl hsent
  · right
    intro e p'' l he _ hl
    cases hd.symm.trans he
    rw [haway] at hl
    cases hl
  · exact .inr (htold hq hlate)

/-! ## Subscribing to a link -/

theorem initRemoteStream_demands (σ : Broker J) {d : DownId} {node : DownstreamNode J}
    (hd : σ.dnode.get d = some node) (p : CString) : (σ.initRemoteStream d node p).1.demands =
      σ.demands.put d p σ.stream.next ⟨.downstream d, (incrSid node.sid).2, 255, some p, fun _ => none⟩ false := by
  ext1
  · rfl
  · funext t
    show ((σ.stream.alloc _).get t).map _ = Function.update σ.demands.stream _ _ t
    rw [Heap.get_alloc, Function.update_apply]
    split <;> rfl
  · funext e
    show ((σ.dnode.modify d _).get e).map _ = Function.update σ.demands.resp d ((σ.demands.resp d).map _) e
    rw [Heap.get_modify, Function.update_apply]
    split
    · rw [demands_resp hd, hd, Option.map_some, Option.map_some, Option.map_some]
      congr 1
      funext q
      rw [AssocMap.get_set, Function.update_apply]
    · rfl
  · exact reads_modDnode_same (σ := { σ with stream := σ.stream.alloc _ }) (fun _ _ => rfl)
  · rfl

/-- The first qos that is asked for on a path without a stream is another one than a new stream starts with. -/
def Audible (m : CString → Option StreamId) (l : List (CString × Nat)) : Prop :=
  ∀ a ∈ l, m a.1 = none → ∀ b ∈ l.find? (fun b => b.1 = a.1), b.2 ≠ 255

theorem Audible.next {m : CString → Option StreamId} {p : CString} {q : Nat} {l : List (CString × Nat)}
    (h : Audible m ((p, q) :: l)) : (m p = none → q ≠ 255) ∧ ∀ st, Audible (Function.update m p (some st)) l := by
  constructor
  · intro hp
    exact h (p, q) List.mem_cons_self hp (p, q) (by simp)
  · intro st a ha hnone b hb
    rw [Function.update_apply] at hnone
    split at hnone
    · cases hnone
    · rename_i hne
      refine h a (List.mem_cons_of_mem _ ha) hnone b ?_
      rw [List.find?_cons_of_neg (by simpa using fun hc => hne hc.symm)]
      exact hb

/-- What is demanded is in order, and the subscriptions `l` to the link of `d` will be heard. -/
def Hears (σ : Broker J) (d : DownId) (l : List (CString × Nat)) : Prop :=
  σ.demands.AllOk ∧ ∀ m, σ.demands.resp d = some m → σ.demands.asks d ≠ some none → Audible m l

theorem Hears.congr {d : DownId} {l : List (CString × Nat)} (h : σ.Hears d l) (hs : σ'.demands = σ.demands) :
    σ'.Hears d l := by
  unfold Hears
  rw [hs]
  exact h

/-- The stream of a link for a path, old or new, may have to be told. -/
theorem remoteStream_demands {d : DownId} {p : CString} {node : DownstreamNode J} (h : σ.demands.AllOk)
    (hd : σ.dnode.get d = some node) : ∃ τ st stream, σ.remoteStream d node p = (τ, st) ∧ τ.sub = σ.sub ∧
      τ.stream.get st = some stream ∧ stream.respNode = .downstream d ∧ stream.remotePath = some p ∧
      τ.demands.asks = σ.demands.asks ∧
      τ.demands.resp d = some (Function.update node.respSubStreams.get p (some st)) ∧
      τ.demands.Ok (· = st) (fun t => t = st) ∧
      (σ.demands.Told stream.demand ∨ node.respSubStreams.get p = none ∧ stream.reqSubs = .empty ∧ stream.respQos = 255) := by
  have hm := demands_resp hd
  cases hget : node.respSubStreams.get p with
  | some st =>
    obtain ⟨x, hx, hxd, hxp⟩ := h.listed d _ p st hm hget
    obtain ⟨stream, hst, rfl⟩ := Option.map_eq_some_iff.mp hx
    refine ⟨σ, st, stream, by simp [remoteStream, hget], rfl, hst, hxd, hxp, rfl, ?_,
      h.mono (fun _ => False.elim) (fun _ => False.elim), .inl (h.told st _ id hx)⟩
    rw [hm, ← hget, Function.update_eq_self]
  | none =>
    have hinit := initRemoteStream_demands σ hd p
    refine ⟨(σ.initRemoteStream d node p).1, σ.stream.next,
      ⟨.downstream d, (incrSid node.sid).2, 255, some p, none, .empty⟩,
      by simp [remoteStream, hget, initRemoteStream], rfl, Heap.get_alloc_next _ _, rfl, rfl, ?_, ?_, ?_,
      .inr ⟨rfl, rfl, rfl⟩⟩
    · have hasks := congrArg Demands.asks hinit
      exact hasks
    · have hresp := congrFun (congrArg Demands.resp hinit) d
      refine hresp.trans ?_
      show Function.update σ.demands.resp d _ d = _
      rw [Function.update_self, hm]
      rfl
    · refine Demands.Ok.congr ?_ hinit
      exact Demands.Ok.put (h.mono (fun _ => False.elim) (fun _ => False.elim)) hm (.inr ⟨hget, by simp [demands]⟩)
        rfl rfl (fun hne => absurd rfl hne) (fun hne => absurd rfl hne)

/-- A subscription: the stream has its maximum again and the link was asked for it. -/
theorem Hears.subscribe {d : DownId} {s : SubId} {p : CString} {l : List (CString × Nat)} {req : SubRequester J}
    (hreq : σ.sub.get s = some req) (h : σ.Hears d ((p, req.qos) :: l))
    (hs : σ.brokerSubscribeRemote cfg d s p = some σ') : σ'.Hears d l := by
  obtain ⟨hok, haudible⟩ := h
  simp only [brokerSubscribeRemote, Option.bind_eq_bind, Option.bind_eq_some_iff] at hs
  obtain ⟨node, hd, req', hreq', υ, hυ, hs⟩ := hs
  cases hreq.symm.trans hreq'
  have haudible := haudible _ (demands_resp hd)
  obtain ⟨τ, st, stream, hremote, hτsub, hst, hsd, hsp, hasks, hm, hτok, htold⟩ := remoteStream_demands (p := p) hok hd
  simp only [hremote] at hυ hs
  -- the stream with the new seat, in its place
  set seated : BrokerSubStream J := { stream with reqSubs := stream.reqSubs.set req.reqNode s } with hseated
  set ρ := τ.attach s st req.reqNode with hρ
  have hρst : ρ.stream.get st = some seated := by
    show (τ.stream.modify st _).get st = _
    rw [Heap.get_modify_self, hst]
    rfl
  have hmp : Function.update node.respSubStreams.get p (some st) p = some st := Function.update_self ..
  have hρput : ρ.demands = τ.demands.put d p st seated.demand false := by
    rw [Demands.put_same hm hmp]
    exact attach_demands hst
  have hρm : ρ.demands.resp d = some (Function.update node.respSubStreams.get p (some st)) := hm
  have hρok : ρ.demands.Ok (· = st) (fun t => False ∨ t = st) := by
    rw [hρput]
    exact Demands.Ok.put (hτok.mono (fun _ => .inl) (fun _ => .inr)) hm (.inl hmp) hsd hsp
      (fun hne => absurd rfl hne) (fun hne => absurd (.inr rfl) hne)
  have hυok : υ.demands.AllOk := by
    refine brokerUpdateStreamQos_demands_ok hρok hρst hsd hsp (fun hmax _ => ?_) hυ
    intro e q l' he hq hl
    have hl : τ.demands.asks e = some (some l') := hl
    rw [hasks] at hl
    rcases htold with htold | ⟨hnew, hempty, h255⟩
    · exact htold e q l' he hq hl
    · -- a new stream has one requester, which does not ask for what the stream starts with
      cases hsd.symm.trans he
      have hconnected : σ.demands.asks d ≠ some none := by
        rw [hl]
        rintro ⟨⟩
      have hsub : ρ.sub.get s = some { req with stream := some st } := by
        show (τ.sub.modify s _).get s = _
        rw [Heap.get_modify_self, hτsub, hreq]
        rfl
      have hone : seated.reqSubs.values = [s] := by
        rw [hseated, hempty]
        rfl
      rw [hone] at hmax
      simp only [maxQosOf, hsub, Option.bind_eq_bind, Option.bind_some, Option.some.injEq, Nat.max_zero] at hmax
      exact absurd (hmax.trans h255) ((haudible hconnected).next.1 hnew)
  obtain ⟨q, sent, -, hput, -⟩ := brokerUpdateStreamQos_demands hρst hsd hsp hρm hmp hυ
  rw [Hears, sendLastValue_demands hs]
  refine ⟨hυok, ?_⟩
  intro m' hm' hconnected
  have hresp : υ.demands.resp = ρ.demands.resp := congrArg Seats.resp (brokerUpdateStreamQos_seats hυ)
  rw [hresp, hρm] at hm'
  obtain rfl := Option.some.inj hm'
  refine (haudible ?_).next.2 st
  intro haway
  apply hconnected
  have haway : ρ.demands.asks d = some none := by
    rw [← haway, ← hasks]
    rfl
  rw [hput]
  cases sent with
  | false => exact haway
  | true =>
    show Function.update ρ.demands.asks d _ d = _
    rw [Function.update_self, haway]
    rfl

/-! ## Leaving a stream -/

/-- The stream of `req` has the same maximum without it: nobody else is there, or somebody who asks for as much. -/
def Spare (σ : Broker J) (req : SubRequester J) : Prop :=
  ∀ st ∈ req.stream, ∀ stream ∈ σ.stream.get st,
    stream.remotePath = none ∨ (stream.reqSubs.erase req.reqNode).size = 0 ∨
      ∀ t ∈ stream.reqSubs.get req.reqNode, ∀ r ∈ σ.sub.get t,
        ∃ u ∈ (stream.reqSubs.erase req.reqNode).values, ∃ other ∈ σ.sub.get u, r.qos ≤ other.qos

/-- `s` can go without a change of the maximum. -/
def Outranked (σ : Broker J) (s : SubId) : Prop := ∀ req ∈ σ.sub.get s, σ.Spare req

instance (σ : Broker J) (s : SubId) : Decidable (σ.Outranked s) := by
  delta Outranked Spare
  infer_instance

theorem Spare.demands {req : SubRequester J} {st : StreamId} (h : σ.Spare req) (hst : req.stream = some st) :
    σ.demands.Spare st req.reqNode := by
  rintro x hx hpath ⟨e, hne, he⟩ t q ht hq
  obtain ⟨stream, hs, rfl⟩ := Option.map_eq_some_iff.mp hx
  obtain ⟨r, hr, rfl⟩ := Option.map_eq_some_iff.mp hq
  rcases h st hst stream hs with hnone | hempty | hother
  · exact absurd hnone hpath
  · have hgone := AssocMap.size_eq_zero.mp hempty e
    rw [AssocMap.get_erase, if_neg hne] at hgone
    exact absurd hgone he
  · obtain ⟨u, hu, other, hother, hle⟩ := hother t ht r hr
    obtain ⟨e', he'⟩ := AssocMap.mem_values.mp hu
    rw [AssocMap.get_erase] at he'
    split at he'
    · cases he'
    · exact ⟨e', u, other.qos, ‹_›, he', demands_qos hother, hle⟩

theorem demand_without (stream : BrokerSubStream J) (d : DownId) :
    { stream with reqSubs := stream.reqSubs.erase d }.demand = stream.demand.without d := by
  unfold BrokerSubStream.demand DemandStream.without
  congr 1
  funext e
  rw [AssocMap.get_erase, Function.update_apply]

/-- The `req->stream` block: streams stay but for the one that `req` leaves. -/
theorem leaveStream_demands {req : SubRequester J} (h : σ.demands.AllOk)
    (hspare : ∀ st, req.stream = some st → σ.demands.Spare st req.reqNode) (hl : σ.leaveStream req = some σ') :
    σ'.demands.AllOk ∧ σ'.demands.qos = σ.demands.qos ∧ σ'.seats.sub = σ.seats.sub ∧
      σ.demands.Left σ'.demands req.reqNode (σ.lastSeat req) := by
  unfold leaveStream at hl
  cases hreq : req.stream with
  | none =>
    simp only [hreq] at hl
    cases hl
    have hgone : σ.lastSeat req = none := by simp [lastSeat, hreq]
    exact ⟨h, rfl, rfl, fun _ x' hx' => ⟨x', hx', .inl rfl⟩, by rw [hgone]; rfl, rfl⟩
  | some st =>
    simp only [hreq, Option.bind_eq_bind, Option.bind_eq_some_iff] at hl
    obtain ⟨stream, hst, hl⟩ := hl
    have hx := demands_stream hst
    set ρ := σ.modStream st (fun stream' => { stream' with reqSubs := stream.reqSubs.erase req.reqNode }) with hρ
    have hmod : ρ.demands = _ := demands_modStream (fun stream' =>
      { stream' with reqSubs := stream.reqSubs.erase req.reqNode }) hst
    rw [demand_without] at hmod
    have hok : ρ.demands.AllOk := (h.without hx (hspare st hreq)).congr hmod
    have hback : ∀ t x', ρ.demands.stream t = some x' →
        ∃ x, σ.demands.stream t = some x ∧ (x' = x ∨ x' = x.without req.reqNode) := by
      intro t x' hx'
      rw [hmod] at hx'
      have hold : Function.update σ.demands.stream st _ t = some x' := hx'
      rw [Function.update_apply] at hold
      split at hold
      · rename_i ht
        rw [ht]
        exact ⟨_, hx, .inr (Option.some.inj hold).symm⟩
      · exact ⟨x', hold, .inl rfl⟩
    split at hl
    · rename_i hempty
      have hgone : σ.lastSeat req = some st := by simp [lastSeat, hreq, hst, hempty]
      obtain ⟨hdrop, -⟩ := brokerStreamFree_demands hok hl
      have hst' : ρ.stream.get st = some { stream with reqSubs := stream.reqSubs.erase req.reqNode } := by
        show (σ.stream.modify st _).get st = _
        rw [Heap.get_modify_self, hst]
        rfl
      refine ⟨brokerStreamFree_demands_ok hok hl, ?_, (brokerStreamFree_empty hst' hempty hl).1, ?_, ?_, ?_⟩
      · rw [hdrop]
        rfl
      · intro t x' hx'
        rw [hdrop] at hx'
        have hold : Function.update ρ.demands.stream st none t = some x' := hx'
        rw [Function.update_apply] at hold
        split at hold
        · cases hold
        · exact hback t x' hold
      · rw [hdrop, hgone]
        rfl
      · rw [hdrop]
        rfl
    · rename_i hmore
      obtain rfl := Option.some.inj hl
      have hgone : σ.lastSeat req = none := by simp [lastSeat, hreq, hst, hmore]
      exact ⟨hok, rfl, rfl, hback, by rw [hgone]; rfl, rfl⟩

/-- A SubRequester knows the stream it sits in. -/
theorem SeatsOk.absent (h : σ.SeatsOk) {s : SubId} {req : SubRequester J} (hs : σ.sub.get s = some req) :
    σ.demands.Absent (fun st => req.stream = some st) s := by
  intro st x d e hst hx hd he
  obtain ⟨stream, hstream, rfl⟩ := Option.map_eq_some_iff.mp hx
  obtain ⟨k, hk, -, hkst⟩ := h.seated st _ e s id (seats_stream hstream) he
  rw [seats_sub hs] at hk
  obtain rfl := Option.some.inj hk
  exact hst hkst

theorem SeatsOk.absent_dead (h : σ.SeatsOk) {s : SubId} (hs : σ.sub.get s = none) :
    σ.demands.Absent (fun _ => False) s := by
  intro st x d e hst hx hd he
  obtain ⟨stream, hstream, rfl⟩ := Option.map_eq_some_iff.mp hx
  refine (h.unnamed_dead (s := s) ?_).1 st _ e id (seats_stream hstream) he
  simp [seats, hs]

/-- `broker_free_sub_requester` up to the block that leaves the stream, and from there to the end. -/
theorem brokerFreeSubRequester_parts {s : SubId} (hs : σ.brokerFreeSubRequester s = some σ') :
    ∃ req ρ τ υ, σ.sub.get s = some req ∧ Frame [.index, .place, .pending] σ ρ ∧
      (∀ t, t ≠ s → ρ.sub.get t = σ.sub.get t) ∧ ρ.leaveStream req = some τ ∧
      Frame [.storage, .qosQueue, .queue, .acks] τ υ ∧ σ' = { υ with sub := υ.sub.free s } := by
  simp only [brokerFreeSubRequester, releaseSub, Option.bind_eq_bind, Option.bind_eq_some_iff] at hs
  obtain ⟨τ, ⟨req, hreq, node, -, τ1, h1, τ2, h2, h3⟩, υ, hυ, hs⟩ := hs
  obtain rfl := Option.some.inj hs
  refine ⟨req, _, τ1, υ, hreq, ?_, ?_, h1, ?_, rfl⟩
  · exact ((Frame.dropIndexes σ req).mono (by decide)).trans ((Frame.dropPending _ s req).mono (by decide))
  · intro t ht
    unfold dropPending
    split
    · rfl
    · refine (Heap.get_modify_ne ht).trans ?_
      unfold unlinkPending
      split <;> (split <;> rfl)
  · exact ((Frame.dropStored h2).mono (by decide)).trans (((Frame.dropQosQueue h3).mono (by decide)).trans
      ((Frame.purgePendingAcks hυ).mono (by decide)))

theorem brokerFreeSubRequester_demands {s : SubId} {req : SubRequester J} (h : σ.demands.AllOk) (hseats : σ.SeatsOk)
    (hreq : σ.sub.get s = some req) (hspare : ∀ st, req.stream = some st → σ.demands.Spare st req.reqNode)
    (hs : σ.brokerFreeSubRequester s = some σ') :
    σ'.demands.AllOk ∧ σ'.demands.qos = Function.update σ.demands.qos s none ∧
      (∀ t, t ≠ s → σ'.seats.sub t = σ.seats.sub t) ∧ σ.demands.Left σ'.demands req.reqNode (σ.vacated s) := by
  have hseats' := brokerFreeSubRequester_seats_ok hseats hs
  obtain ⟨req', ρ, τ, υ, hreq', hbefore, hothers, hleave, hafter, rfl⟩ := brokerFreeSubRequester_parts hs
  cases hreq.symm.trans hreq'
  have hρ : ρ.demands = σ.demands := hbefore.demands (by decide) (hbefore.reads (by decide))
  have hυ : υ.demands = τ.demands := hafter.demands (by decide) (hafter.reads (by decide))
  have hgone : σ.vacated s = ρ.lastSeat req := by
    rw [vacated, hreq]
    unfold lastSeat
    simp only [Option.bind_some, hbefore.stream_get (by decide) (by decide)]
  rw [hgone]
  rw [← hρ] at h hspare ⊢
  obtain ⟨hτok, hτqos, hτseats, hleft⟩ := leaveStream_demands h hspare hleave
  rw [← hυ] at hτok hτqos hleft
  have hfree : ({ υ with sub := υ.sub.free s } : Broker J).demands =
      { υ.demands with qos := Function.update υ.demands.qos s none } := by
    ext1
    · funext t
      show ((υ.sub.free s).get t).map _ = Function.update υ.demands.qos s none t
      rw [Heap.get_free, Function.update_apply]
      split <;> rfl
    · rfl
    · rfl
    · rfl
    · rfl
  refine ⟨?_, ?_, ?_, ⟨hleft.stream, hleft.resp, hleft.asks⟩⟩
  · rw [hfree]
    exact hτok.setQos (hseats'.absent_dead (Heap.get_free_self ..)) none
  · rw [hfree, ← hτqos]
  · intro t ht
    rw [freeSub_seats]
    refine (Function.update_of_ne ht ..).trans ?_
    rw [hafter.seats_sub (by decide) (by decide), hτseats]
    exact congrArg (Option.map _) (hothers t ht)

/-! ## A new qos -/

/-- `broker_update_sub_qos`: the stream takes its maximum again. -/
theorem brokerUpdateSubQos_demands_ok {s : SubId} {qos : Nat} (h : σ.demands.AllOk) (hseats : σ.SeatsOk)
    (hs : brokerUpdateSubQos σ s qos = some σ') : σ'.demands.AllOk := by
  simp only [brokerUpdateSubQos, Option.bind_eq_bind, Option.bind_eq_some_iff] at hs
  obtain ⟨req, hreq, hs⟩ := hs
  split at hs
  · cases hs
    exact h
  · simp only [Option.bind_eq_some_iff] at hs
    obtain ⟨τ, hτ, υ, hυ, hs⟩ := hs
    obtain ⟨m, rfl⟩ := serializeIf_eq hτ
    obtain ⟨m', rfl⟩ := serializeIf_eq hs
    set ρ := ({ σ.modSub s (fun req => { req with qos := qos }) with storage := m } : Broker J).modSub s (fun req =>
      { req with qosQueue := if 0 < req.qos ∧ req.qosQueue = none then some [] else req.qosQueue }) with hρdef
    have hρ : ρ.demands = { σ.demands with qos := Function.update σ.demands.qos s (some qos) } := by
      ext1
      · funext t
        show (((σ.sub.modify s _).modify s _).get t).map _ = Function.update σ.demands.qos s _ t
        by_cases ht : t = s
        · rw [ht, Heap.get_modify_self, Heap.get_modify_self, Function.update_self, hreq]
          rfl
        · rw [Heap.get_modify_ne ht, Heap.get_modify_ne ht, Function.update_of_ne ht]
          rfl
      · rfl
      · rfl
      · rfl
      · rfl
    have hok : ρ.demands.Ok (fun st => req.stream = some st) (fun _ => False) := by
      rw [hρ]
      exact (h.mono (fun _ => False.elim) (fun _ => id)).setQos (hseats.absent hreq) (some qos)
    show υ.demands.AllOk
    cases hst : req.stream with
    | none =>
      rw [hst] at hok
      have hsame : ρ = υ := by
        simpa [hst, brokerUpdateStreamQos] using hυ
      rw [← hsame]
      exact hok.mono (fun st hc => by cases hc) (fun _ => id)
    | some st =>
      rw [hst] at hυ hok
      have hlive : ∃ stream, ρ.stream.get st = some stream := by
        simp only [brokerUpdateStreamQos, Option.bind_eq_bind, Option.bind_eq_some_iff] at hυ
        obtain ⟨stream, hstream, -⟩ := hυ
        exact ⟨stream, hstream⟩
      obtain ⟨stream, hstream⟩ := hlive
      have hx := demands_stream hstream
      cases hnode : stream.respNode with
      | regular n =>
        -- nobody asks a local node
        have hsame : υ = ρ := by
          cases hp : stream.remotePath <;>
            (simp only [brokerUpdateStreamQos, hstream, hnode, hp, Option.bind_eq_bind, Option.bind_some] at hυ
             exact (Option.some.inj hυ).symm)
        rw [hsame]
        refine ⟨hok.home, hok.listed, hok.filed, fun st' y d _ hy hd => ?_, hok.told⟩
        refine hok.top st' y d ?_ hy hd
        rintro ⟨⟩
        cases hx.symm.trans hy
        rw [show stream.demand.respNode = .regular n from hnode] at hd
        cases hd
      | downstream d =>
        obtain ⟨-, p, -, hp, -⟩ := hok.filed st _ d hx hnode
        refine brokerUpdateStreamQos_demands_ok (hok.mono ?_ (fun _ => .inl)) hstream hnode hp ?_ hυ
        · rintro t ⟨⟩
          rfl
        · intro _ _
          exact hok.told st _ id hx

/-! ## SubRequesters, links and nodes that come and go -/

theorem newSub_demands_ok {d : DownId} {path : CString} {sid qos : Nat} (h : σ.demands.AllOk) (hseats : σ.SeatsOk)
    (hs : σ.newSub d path sid qos = some σ') : σ'.demands.AllOk := by
  simp only [newSub, Option.bind_eq_bind, Option.bind_eq_some_iff] at hs
  obtain ⟨τ, hτ, hs⟩ := hs
  obtain ⟨m, rfl⟩ := serializeIf_eq hτ
  obtain rfl := Option.some.inj hs
  have hdead : σ.sub.get σ.sub.next = none := by simp
  refine (h.setQos (hseats.absent_dead hdead) (some qos)).congr ?_
  have hlink : ∀ (υ : Broker J) (f : DownstreamNode J → DownstreamNode J), (∀ node, (f node).link = node.link ∧
      (f node).respSubStreams = node.respSubStreams) → (υ.modDnode d f).demands = υ.demands := by
    intro υ f hf
    ext1
    · rfl
    · rfl
    · funext e
      show ((υ.dnode.modify d f).get e).map _ = (υ.dnode.get e).map _
      rw [Heap.get_modify]
      split
      · rename_i he
        rw [he, Option.map_map]
        apply Option.map_congr
        intro node _
        rw [Function.comp, (hf node).2]
      · rfl
    · apply reads_modDnode_same
      intro node _
      rw [(hf node).1]
    · rfl
  rw [hlink]
  · ext1
    · funext t
      show ((σ.sub.alloc _).get t).map _ = Function.update σ.demands.qos _ _ t
      rw [Heap.get_alloc, Function.update_apply]
      split <;> rfl
    · rfl
    · rfl
    · rfl
    · rfl
  · exact fun _ => ⟨rfl, rfl⟩

theorem brokerInitDownstreamNode_demands_ok {parent : NodeId} {name : CString} {d : DownId} (h : σ.demands.AllOk)
    (hs : σ.brokerInitDownstreamNode parent name = some (σ', d)) : σ'.demands.AllOk := by
  simp only [brokerInitDownstreamNode, Option.bind_eq_bind, Option.bind_eq_some_iff] at hs
  obtain ⟨node, -, hs⟩ := hs
  cases hs
  refine (h.newMaps (d := σ.dnode.next) (by simp [demands])).congr ?_
  ext1
  · rfl
  · rfl
  · funext e
    show ((σ.dnode.alloc _).get e).map _ = Function.update σ.demands.resp _ _ e
    rw [Heap.get_alloc, Function.update_apply]
    split <;> rfl
  · funext e
    show ((σ.dnode.alloc _).get e).map _ = Function.update σ.demands.asks _ _ e
    rw [Heap.get_alloc, Function.update_apply]
    split <;> rfl
  · funext n
    show ((σ.node.modify parent _).get n).bind _ = (σ.node.get n).bind _
    rw [Heap.get_modify]
    split
    · rename_i hn
      rw [hn]
      cases σ.node.get parent <;> rfl
    · rfl

theorem freeDownstreamNode_demands_ok {d : DownId} (h : σ.demands.AllOk) (hs : σ.freeDownstreamNode d = some σ') :
    σ'.demands.AllOk := by
  simp only [freeDownstreamNode, Option.bind_eq_bind, Option.bind_eq_some_iff] at hs
  obtain ⟨node, hd, hs⟩ := hs
  split at hs
  · cases hs
  · rename_i hempty
    simp only [Option.bind_eq_some_iff] at hs
    obtain ⟨τ, hτ, hs⟩ := hs
    obtain rfl := Option.some.inj hs
    have hτσ : τ.demands = σ.demands := (Frame.leaveParent hτ).demands (by decide) ((Frame.leaveParent hτ).reads (by decide))
    have hnone : ∀ p, node.respSubStreams.get p = none := by
      apply AssocMap.size_eq_zero.mp
      omega
    refine (h.dropMaps (demands_resp hd) hnone).congr ?_
    ext1
    · show τ.demands.qos = _
      rw [hτσ]
    · show τ.demands.stream = _
      rw [hτσ]
    · funext e
      show ((τ.dnode.free d).get e).map _ = Function.update σ.demands.resp d none e
      rw [Heap.get_free, Function.update_apply, ← hτσ]
      split <;> rfl
    · funext e
      show ((τ.dnode.free d).get e).map _ = Function.update σ.demands.asks d none e
      rw [Heap.get_free, Function.update_apply, ← hτσ]
      split <;> rfl
    · show τ.demands.home = _
      rw [hτσ]

/-- Local nodes change, and take no stream that is another one's. -/
theorem Frame.demands_ok {ps : List Part} (h : Frame ps σ σ') (hok : σ.demands.AllOk)
    (hps : Part.qos ∉ ps ∧ Part.streams ∉ ps ∧ Part.values ∉ ps ∧ Part.resp ∉ ps ∧ Part.link ∉ ps)
    (hhome : ∀ n st, σ'.demands.home n = some st → σ.demands.home n = some st) : σ'.demands.AllOk := by
  refine (hok.forget _ hhome).congr ?_
  exact Demands.ext (h.demands_qos hps.1) (h.demands_stream hps.2.1 hps.2.2.1) (h.seats_resp hps.2.2.2.1)
    (h.reads hps.2.2.2.2) rfl

theorem home_modNode {n m : NodeId} {st : StreamId} {f : BrokerNode J → BrokerNode J}
    (hf : ∀ node, (f node).subStream = node.subStream) (h : (σ.modNode n f).demands.home m = some st) :
    σ.demands.home m = some st := by
  have h : ((σ.node.modify n f).get m).bind _ = some st := h
  rw [Heap.get_modify] at h
  split at h
  · rename_i hm
    rw [hm]
    obtain ⟨node, hnode, hst⟩ := Option.bind_eq_some_iff.mp h
    obtain ⟨node', hnode', rfl⟩ := Option.map_eq_some_iff.mp hnode
    rw [hf] at hst
    exact Option.bind_eq_some_iff.mpr ⟨node', hnode', hst⟩
  · exact h

/-- Every call that raises local nodes or removes nodes keeps what is demanded. -/
theorem raises_demands_ok {c : Call J} (h : σ.demands.AllOk) (hc : c.raises) (hs : c.run cfg σ = some σ') :
    σ'.demands.AllOk := by
  cases c with
  | update s row => exact h.congr (brokerUpdateSubReq_demands hs)
  | setValue st row =>
    cases hs
    exact h.congr (demands_modStream_same (fun _ => rfl))
  | sendOther d => exact h.congr (sendOther_demands hs)
  | freeStream st => exact brokerStreamFree_demands_ok h hs
  | dropDnode d => exact freeDownstreamNode_demands_ok h hs
  | setNodeValue n value =>
    cases hs
    exact h.congr ((Frame.setNodeValue σ n value).demands (by decide) rfl)
  | orphan ref =>
    cases hs
    exact h.congr ((Frame.orphan σ ref).demands (by decide) ((Frame.orphan σ ref).reads (by decide)))
  | setAction n action =>
    cases hs
    exact (Frame.setAction σ n action).demands_ok h (by decide) (fun _ _ hm => home_modNode (by intros; rfl) hm)
  | newNode parent name =>
    obtain ⟨⟨τ, r⟩, hτ, rfl⟩ := Option.map_eq_some_iff.mp hs
    refine (Frame.brokerNodeAdd hτ).demands_ok h (by decide) ?_
    intro m st hm
    simp only [brokerNodeAdd, Option.bind_eq_bind, Option.bind_eq_some_iff] at hτ
    obtain ⟨node, -, hτ⟩ := hτ
    split at hτ
    · cases hτ
      exact hm
    · cases hτ
      have hm := home_modNode (by intros; rfl) hm
      have hm : ((σ.node.alloc _).get m).bind _ = some st := hm
      rw [Heap.get_alloc] at hm
      split at hm
      · cases hm
      · exact hm
  | dropNode n parent name =>
    refine (Frame.dropNode hs).demands_ok h (by decide) ?_
    intro m st hm
    have hs : σ.dropNode n parent name = some σ' := hs
    simp only [Broker.dropNode, Option.bind_eq_bind, Option.bind_eq_some_iff] at hs
    obtain ⟨τ, hτ, hs⟩ := hs
    obtain rfl := Option.some.inj hs
    have hm : ((τ.node.free n).get m).bind _ = some st := hm
    rw [Heap.get_free] at hm
    split at hm
    · cases hm
    · rw [← (Frame.leaveParent hτ).demands_home (by decide)]
      exact hm
  | _ => exact hc.elim

theorem works_demands_ok {N : CString → Prop} (h : σ.demands.AllOk) (hs : Works cfg N σ σ') : σ'.demands.AllOk := by
  refine Works.invariant (fun τ => τ.demands.AllOk) hs ?_ ?_ h
  · exact fun _ c _ hok hc hrun => raises_demands_ok hok hc hrun
  · exact fun _ n now _ hok hrun => handlePendingSub_demands_ok hok hrun

/-! ## Closing a link -/

/-- Only SubRequesters below qos 2 are collected. -/
theorem collectNonQos_low {l l' : List SubId} (h : σ.collectNonQos l = some (σ', l')) :
    ∀ s ∈ l', ∃ req, σ.sub.get s = some req ∧ req.qos ≤ 1 := by
  induction l generalizing σ l' with
  | nil =>
    cases h
    intro s hs
    cases hs
  | cons a l ih =>
    simp only [collectNonQos, Option.bind_eq_bind, Option.bind_eq_some_iff] at h
    obtain ⟨req, hreq, h⟩ := h
    split at h
    · simp only [Option.bind_eq_some_iff] at h
      obtain ⟨⟨τ, l0⟩, hτ, h⟩ := h
      cases h
      intro s hs
      rcases List.mem_cons.mp hs with rfl | hs
      · exact ⟨req, hreq, ‹_›⟩
      · exact ih hτ s hs
    · intro s hs
      obtain ⟨req', hreq', hq⟩ := ih h s hs
      obtain ⟨r, hr, hrq⟩ := (Frame.brokerClearMesssageIds σ a).sub_rev (p := .qos) (by decide) (by simp) hreq'
      exact ⟨r, hr, hrq ▸ hq⟩

/-- The SubRequesters that an event frees. -/
def leavers (σ : Broker J) : Event J → List SubId
  | .closeLink d =>
    (((σ.dnode.get d).map (fun node => node.reqSubPaths.values)).getD []).filter
      (fun s => (σ.sub.get s).any (fun req => decide (req.qos ≤ 1)))
  | e => (σ.freedBy e).toList

/-- Who is in the list belongs to `d`, and can go without a change of a maximum. -/
def Going (σ : Broker J) (d : DownId) (l : List SubId) : Prop :=
  ∀ s ∈ l, ∀ k, σ.seats.sub s = some k → k.reqNode = d ∧ ∀ st, k.stream = some st → σ.demands.Spare st d

theorem Going.next {d : DownId} {s : SubId} {l : List SubId} (h : σ.Going d (s :: l)) (hok : σ.demands.AllOk)
    (hseats : σ.SeatsOk) (hs : σ.brokerFreeSubRequester s = some σ') : σ'.demands.AllOk ∧ σ'.Going d l := by
  obtain ⟨req, hreq⟩ := brokerFreeSubRequester_live hs
  obtain ⟨hnode, hspare⟩ := h s List.mem_cons_self _ (seats_sub hreq)
  have hnode : req.reqNode = d := hnode
  obtain ⟨hok', hqos, hsub, hleft⟩ := brokerFreeSubRequester_demands hok hseats hreq (by rw [hnode]; exact hspare) hs
  refine ⟨hok', fun t ht k hk => ?_⟩
  have hts : t ≠ s := by
    rintro rfl
    have hq := congrFun hqos t
    rw [Function.update_self] at hq
    obtain ⟨r, hr, -⟩ := seats_sub_eq_some.mp hk
    rw [demands_qos hr] at hq
    cases hq
  rw [hsub t hts] at hk
  obtain ⟨hkd, hkspare⟩ := h t (List.mem_cons_of_mem _ ht) k hk
  refine ⟨hkd, fun st hst => (hkspare st hst).keep ?_ ?_ ?_⟩
  · rw [← hnode]
    exact hleft.stream st
  · intro u q hu
    rw [hqos, Function.update_apply] at hu
    split at hu
    · cases hu
    · exact hu
  · intro x e u hx hne hu
    rw [hqos]
    apply Function.update_of_ne
    rintro rfl
    obtain ⟨stream, hstream, rfl⟩ := Option.map_eq_some_iff.mp hx
    obtain ⟨k', hk', he, -⟩ := hseats.seated st _ e u id (seats_stream hstream) hu
    cases (seats_sub hreq).symm.trans hk'
    exact hne (he.symm.trans hnode)

theorem freeSubs_demands_ok {d : DownId} {l : List SubId} (h : σ.demands.AllOk) (hseats : σ.SeatsOk)
    (hl : σ.Going d l) (hs : σ.freeSubs l = some σ') : σ'.demands.AllOk := by
  refine (foldlM_rest (fun l τ => τ.demands.AllOk ∧ τ.SeatsOk ∧ τ.Going d l) ?_ hs ⟨h, hseats, hl⟩).1
  rintro τ s l υ ⟨hok, hτ, hgoing⟩ hfree
  obtain ⟨hok', hgoing'⟩ := hgoing.next hok hτ hfree
  exact ⟨hok', brokerFreeSubRequester_seats_ok hτ hfree, hgoing'⟩

theorem demands_dropLink {d : DownId} {node : DownstreamNode J} (hd : σ.dnode.get d = some node) :
    (σ.modDnode d (fun node => { node with link := none })).demands =
      { σ.demands with asks := Function.update σ.demands.asks d (some none) } := by
  ext1
  · rfl
  · rfl
  · funext e
    show ((σ.dnode.modify d _).get e).map _ = (σ.dnode.get e).map _
    rw [Heap.get_modify]
    split
    · rename_i he
      rw [he, hd]
      rfl
    · rfl
  · funext e
    show ((σ.dnode.modify d _).get e).map _ = Function.update σ.demands.asks d (some none) e
    rw [Heap.get_modify, Function.update_apply]
    split
    · rename_i he
      rw [hd]
      rfl
    · rfl
  · rfl

theorem brokerCloseLink_demands_ok {d : DownId} (h : σ.demands.AllOk) (hseats : σ.SeatsOk) (hpaths : σ.indexes.PathsOk)
    (hout : ∀ s ∈ σ.leavers (.closeLink d), σ.Outranked s) (hs : σ.brokerCloseLink d = some σ') : σ'.demands.AllOk := by
  simp only [brokerCloseLink, brokerRemoteDslinkFree, Option.bind_eq_bind, Option.bind_eq_some_iff] at hs
  obtain ⟨ω, ⟨node, hd, ⟨τ, l⟩, hτ, υ, hυ, node', hd', χ, hχ, hω⟩, hs⟩ := hs
  obtain rfl := Option.some.inj hω
  obtain rfl := Option.some.inj hs
  have hf : Frame [.acks, .queue] σ τ :=
    ((Frame.freePendingAcks σ d).mono (by decide)).trans ((Frame.collectNonQos hτ).mono (by decide))
  have hτσ : τ.demands = σ.demands := hf.demands (by decide) (hf.reads (by decide))
  have hτseats : τ.seats = σ.seats :=
    hf.seats (by decide) (by decide) (by decide) (by decide) (hf.seats_resp (by decide))
  have hgoing : τ.Going d l := by
    intro s hsl k hk
    obtain ⟨p, hp⟩ := AssocMap.mem_values.mp (collectNonQos_subset hτ s hsl)
    obtain ⟨sk, hsk, -, hn⟩ := hpaths.live d _ p s (indexes_node hd) hp
    rw [hτseats] at hk
    obtain ⟨req, hreq, rfl⟩ := seats_sub_eq_some.mp hk
    have hnode : req.reqNode = d := by
      rw [indexes_sub hreq] at hsk
      rw [← hn, ← Option.some.inj hsk]
    refine ⟨hnode, fun st hst => ?_⟩
    have hmem : s ∈ σ.leavers (.closeLink d) := by
      have hlow : req.qos ≤ 1 := by
        obtain ⟨req', hreq', hlow⟩ := collectNonQos_low hτ s hsl
        cases hreq.symm.trans hreq'
        exact hlow
      simp only [leavers, hd, Option.map_some, Option.getD_some, List.mem_filter, hreq, Option.any_some, decide_eq_true_eq]
      exact ⟨collectNonQos_subset hτ s hsl, hlow⟩
    rw [hτσ, ← hnode]
    exact (hout s hmem req hreq).demands hst
  have hυok : υ.demands.AllOk := by
    refine freeSubs_demands_ok (by rw [hτσ]; exact h) ?_ hgoing hυ
    rw [SeatsOk, hτseats]
    exact hseats
  have hlast : Frame [.sid, .index] υ (χ.modDnode d (fun node => { node with reqSubSids := .empty })) :=
    ((Frame.resetSids hχ).mono (by decide)).trans ((Frame.clearSids χ d).mono (by decide))
  have hχok : (χ.modDnode d (fun node => { node with reqSubSids := .empty })).demands.AllOk := by
    rw [hlast.demands (by decide) (hlast.reads (by decide))]
    exact hυok
  obtain ⟨node'', hd'', -⟩ := hlast.dnode (p := .link) (by decide) (by simp) hd'
  rw [demands_dropLink hd'']
  exact hχok.close d (some none) (by rintro l ⟨⟩)

/-! ## Opening a link -/

theorem demands_openLink {d : DownId} {node : DownstreamNode J} (hd : σ.dnode.get d = some node) (path : Option CString) :
    (σ.modDnode d (fun node => { node with link := some ⟨path, 0, []⟩ })).demands =
      { σ.demands with asks := Function.update σ.demands.asks d (some (some [])) } := by
  ext1
  · rfl
  · rfl
  · funext e
    show ((σ.dnode.modify d _).get e).map _ = (σ.dnode.get e).map _
    rw [Heap.get_modify]
    split
    · rename_i he
      rw [he, hd]
      rfl
    · rfl
  · exact reads_modDnode (fun _ _ => rfl) (by simp [hd])
  · rfl

/-- All streams of the link are asked for again. -/
theorem resendSubscriptions_demands {d : DownId} {m : CString → Option StreamId} {streams : List StreamId}
    (h : σ.demands.Ok (fun _ => False) (· ∈ streams)) (hm : σ.demands.resp d = some m)
    (hplace : ∀ st ∈ streams, ∃ p, m p = some st) (hs : σ.resendSubscriptions d streams = some σ') :
    σ'.demands.AllOk ∧ σ'.demands.resp = σ.demands.resp := by
  have hloop := foldlM_rest (fun l τ => τ.demands.Ok (fun _ => False) (· ∈ l) ∧ τ.demands.resp = σ.demands.resp ∧
    ∀ st ∈ l, ∃ p, m p = some st) ?_ hs ⟨h, rfl, hplace⟩
  · exact ⟨hloop.1.mono (fun _ => id) (fun st hst => by cases hst), hloop.2.1⟩
  · rintro τ st l υ ⟨hok, hresp, hplace⟩ hround
    simp only [Option.bind_eq_bind, Option.bind_eq_some_iff] at hround
    obtain ⟨stream, hst, hround⟩ := hround
    obtain ⟨p, hmp⟩ := hplace st List.mem_cons_self
    have hx := demands_stream hst
    have hmτ : τ.demands.resp d = some m := by
      rw [hresp]
      exact hm
    obtain ⟨x, hx', hd, hp⟩ := hok.listed d m p st hmτ hmp
    cases hx.symm.trans hx'
    have hput : υ.demands = τ.demands.put d p st stream.demand true := by
      rw [sendSubscribeRequest_demands hround, show stream.remotePath = some p from hp]
      unfold Demands.put
      rw [hmτ, Option.map_some, ← hmp, Function.update_eq_self, ← hmτ, Function.update_eq_self, ← hx,
        Function.update_eq_self]
      rfl
    refine ⟨?_, ?_, fun t ht => hplace t (List.mem_cons_of_mem _ ht)⟩
    · rw [hput]
      refine Demands.Ok.put (hok.mono (fun _ => .inl) ?_) hmτ (.inl hmp) hd hp (fun hne => hok.top st _ d hne hx hd)
        (fun _ => .inl rfl)
      intro t ht
      rcases List.mem_cons.mp ht with rfl | ht
      · exact .inr rfl
      · exact .inl ht
    · rw [sendSubscribeRequest_demands hround]
      exact hresp

/-- The paths and the qos of waiting SubRequesters. -/
def waitingAsks (σ : Broker J) (len : Nat) (subs : List SubId) : List (CString × Nat) :=
  subs.filterMap (fun s => (σ.sub.get s).map (fun req => (req.path.drop len, req.qos)))

theorem attachPending_demands_ok {d : DownId} {len : Nat} {subs : List SubId}
    (h : σ.Hears d (σ.waitingAsks len subs)) (hs : σ.attachPending cfg d len subs = some σ') : σ'.demands.AllOk := by
  -- those who still wait are the rest of the list
  have hloop := foldlM_rest (fun l τ => τ.Hears d (τ.waitingAsks len l)) ?_ hs h
  · exact hloop.1
  · intro τ s l υ hears hround
    simp only [Option.bind_eq_bind, Option.bind_eq_some_iff] at hround
    obtain ⟨req, hreq, hround⟩ := hround
    have hasks : τ.waitingAsks len (s :: l) = (req.path.drop len, req.qos) :: τ.waitingAsks len l := by
      simp [waitingAsks, hreq]
    have hkeep : υ.waitingAsks len l = τ.waitingAsks len l := by
      unfold waitingAsks
      congr 1
      funext t
      have hf := Frame.brokerSubscribeRemote hround
      have hsubs : Heap.Rel (SubRequester.Agree .subs) τ.sub υ.sub := hf .subs (by decide)
      have hqos : Heap.Rel (SubRequester.Agree .qos) τ.sub υ.sub := hf .qos (by decide)
      cases ht : τ.sub.get t with
      | none => rw [hsubs.get_none.mpr ht]
      | some r =>
        obtain ⟨r', hr', hpath, -⟩ := hsubs.get ht
        obtain ⟨r'', hr'', hq⟩ := hqos.get ht
        cases hr'.symm.trans hr''
        rw [hr', Option.map_some, Option.map_some, hpath, show r'.qos = r.qos from hq]
    rw [hasks] at hears
    rw [hkeep]
    exact hears.subscribe hreq hround

/-- What an event asks a link for, where the link is there to hear it. -/
def demanded (σ : Broker J) : Event J → Option (DownId × List (CString × Nat))
  | .subscribe d sub now => do
    let x ← σ.asked (.subscribe d sub now)
    let node ← σ.dnode.get x.1
    if node.link.isSome then some (x.1, x.2.map (fun p => (p, (sub.qos.map toU8).getD 0))) else none
  | .connect d => do
    let node ← σ.dnode.get d
    let subs ← σ.remotePendingSub.get node.path
    some (d, σ.waitingAsks node.path.length subs)
  | _ => none

/-- Whoever an event frees is outranked, and the first qos asked for on a new stream is not the one it starts with. -/
def QosKept (σ : Broker J) (e : Event J) : Prop :=
  (∀ s ∈ σ.leavers e, σ.Outranked s) ∧ ∀ x ∈ σ.demanded e,
    ∀ m ∈ (σ.demands.dropAny ((σ.freedBy e).bind σ.vacated)).resp x.1, Audible m x.2

instance (m : CString → Option StreamId) (l : List (CString × Nat)) : Decidable (Audible m l) := by
  delta Audible
  infer_instance

instance (σ : Broker J) (e : Event J) : Decidable (σ.QosKept e) := by
  delta QosKept
  infer_instance

theorem brokerDslinkConnect_demands_ok {d : DownId} (h : σ.demands.AllOk) (hkept : σ.QosKept (.connect d))
    (hs : σ.brokerDslinkConnect cfg d = some σ') : σ'.demands.AllOk := by
  simp only [brokerDslinkConnect, Option.bind_eq_bind, Option.bind_eq_some_iff] at hs
  obtain ⟨node, hd, τ, hτ, hs⟩ := hs
  set ρ := σ.modDnode d (fun node' => { node' with link := some ⟨σ.linkPath node, 0, []⟩ }) with hρ
  have hρσ := demands_openLink hd (σ.linkPath node)
  have hm := demands_resp hd
  have hρok : ρ.demands.Ok (fun _ => False) (· ∈ node.respSubStreams.values) := by
    rw [hρσ]
    refine (h.opened hm []).mono (fun _ => id) ?_
    rintro st (hc | ⟨p, hp⟩)
    · exact hc.elim
    · exact AssocMap.mem_values.mpr ⟨p, hp⟩
  obtain ⟨hτok, hτresp⟩ := resendSubscriptions_demands hρok (m := node.respSubStreams.get) (by rw [hρσ]; exact hm)
    (fun st hst => AssocMap.mem_values.mp hst) hτ
  obtain ⟨hsub, hpending⟩ : τ.sub = ρ.sub ∧ τ.remotePendingSub = ρ.remotePendingSub := by
    refine foldlM_invariant (fun τ => τ.sub = ρ.sub ∧ τ.remotePendingSub = ρ.remotePendingSub) ?_ hτ ⟨rfl, rfl⟩
    rintro σ1 st - σ2 hsame hsend
    simp only [sendSubscribeRequest, Option.bind_eq_bind, Option.bind_eq_some_iff] at hsend
    obtain ⟨_, -, _, -, _, -, hsend⟩ := hsend
    obtain rfl := Option.some.inj hsend
    exact hsame
  split at hs
  · cases hs
    exact hτok
  · rename_i subs hsubs
    simp only [Option.bind_eq_some_iff, Option.map_eq_some_iff] at hs
    obtain ⟨len, ⟨path, hpath, rfl⟩, υ, hυ, hs⟩ := hs
    obtain rfl := Option.some.inj hs
    have hlen : path = node.path := by
      unfold linkPath at hpath
      split at hpath
      · exact (Option.some.inj hpath).symm
      · cases hpath
    rw [(Frame.subsListFree υ subs).demands (by decide) ((Frame.subsListFree υ subs).reads (by decide))]
    refine attachPending_demands_ok (σ := { τ with remotePendingSub := τ.remotePendingSub.erase node.path }) ⟨hτok, ?_⟩ hυ
    intro m hm' _
    have hm' : τ.demands.resp d = some m := hm'
    rw [hτresp, hρσ] at hm'
    have hdemanded : σ.demanded (.connect d) = some (d, σ.waitingAsks node.path.length subs) := by
      have hlist : σ.remotePendingSub.get node.path = some subs := by
        rw [← hsubs, hpending]
        rfl
      simp [demanded, hd, hlist]
    have haudible := hkept.2 _ hdemanded m hm'
    rw [hlen]
    have hsame : ({ τ with remotePendingSub := τ.remotePendingSub.erase node.path } : Broker J).waitingAsks
        node.path.length subs = σ.waitingAsks node.path.length subs := by
      show τ.waitingAsks _ subs = _
      unfold waitingAsks
      rw [hsub]
      rfl
    rw [hsame]
    exact haudible

/-! ## Requests -/

/-- A new SubRequester: a path below a link is asked for there. -/
theorem subscribeNew_demands_ok {d : DownId} {path : CString} {sid qos : Nat} {now : J} (h : σ.demands.AllOk)
    (hseats : σ.SeatsOk)
    (hears : ∀ e out, σ.brokerNodeGet path = some (some (.downstream e, out)) → ∀ m, σ.demands.resp e = some m →
      σ.demands.asks e ≠ some none → Audible m [(out, qos)])
    (hs : σ.subscribeNew cfg d path sid qos now = some σ') : σ'.demands.AllOk := by
  obtain ⟨τ, respNode, hτ, hget, hs⟩ := subscribeNew_calls hs
  have hok := newSub_demands_ok h hseats hτ
  unfold placeSub at hs
  split at hs
  · split at hs
    · have hf := Frame.brokerSubscribeDisconnectedRemote hs
      exact hok.congr (hf.demands (by decide) (hf.reads (by decide)))
    · obtain rfl := Option.some.inj hs
      have hf := Frame.brokerSubscribeLocalNonexistent τ path σ.sub.next
      exact hok.congr (hf.demands (by decide) (hf.reads (by decide)))
  · exact brokerHandleLocalSubscribe_demands_ok hok hs
  · rename_i e out
    have hf := Frame.newSub hτ
    obtain ⟨req, hreq, hqos⟩ : ∃ req, τ.sub.get σ.sub.next = some req ∧ req.qos = qos := by
      simp only [newSub, Option.bind_eq_bind, Option.bind_eq_some_iff] at hτ
      obtain ⟨υ, hυ, hτ⟩ := hτ
      obtain ⟨m, rfl⟩ := serializeIf_eq hυ
      obtain rfl := Option.some.inj hτ
      exact ⟨_, Heap.get_alloc_next _ _, rfl⟩
    refine (Hears.subscribe (l := []) hreq ⟨hok, ?_⟩ hs).1
    intro m hm hconnected
    rw [hqos]
    refine hears e out hget m ?_ ?_
    · rw [← hm]
      exact (congrFun (hf.seats_resp (by decide)) e).symm
    · intro haway
      apply hconnected
      rw [← haway]
      exact congrFun (hf.reads (by decide)) e

theorem resubscribe_demands_ok {d : DownId} {s : SubId} {sid qos : Nat} (h : σ.demands.AllOk) (hseats : σ.SeatsOk)
    (hs : σ.resubscribe cfg d s sid qos = some σ') : σ'.demands.AllOk := by
  simp only [resubscribe, Option.bind_eq_bind, Option.bind_eq_some_iff] at hs
  obtain ⟨τ, hτ, υ, hυ, hs⟩ := hs
  have hf := Frame.rekey hτ
  have hτok : τ.demands.AllOk := h.congr (hf.demands (by decide) (hf.reads (by decide)))
  have hυok := brokerUpdateSubQos_demands_ok hτok (hseats.frame hf (by decide)) hυ
  simp only [sendWaiting, Option.bind_eq_bind, Option.bind_eq_some_iff] at hs
  obtain ⟨req, -, hs⟩ := hs
  split at hs
  · exact hυok.congr (brokerUpdateSubReqQos_demands hs)
  · split at hs
    · exact hυok.congr (sendQueuedMessages_demands hs)
    · split at hs
      · cases hs
        exact hυok
      · exact hυok.congr (sendLastValue_demands hs)

/-- Freeing one that is outranked; the streams of links are those that were there but for the one that is left. -/
theorem freeOutranked {s : SubId} (h : σ.demands.AllOk) (hseats : σ.SeatsOk) (hout : σ.Outranked s)
    (hs : σ.brokerFreeSubRequester s = some σ') : σ'.demands.AllOk ∧ σ'.SeatsOk ∧
      σ'.demands.resp = (σ.demands.dropAny (σ.vacated s)).resp ∧ σ'.demands.asks = σ.demands.asks := by
  obtain ⟨req, hreq⟩ := brokerFreeSubRequester_live hs
  obtain ⟨hok, -, -, hleft⟩ := brokerFreeSubRequester_demands h hseats hreq (fun st => (hout req hreq).demands) hs
  exact ⟨hok, brokerFreeSubRequester_seats_ok hseats hs, hleft.resp, hleft.asks⟩

/-- A subscribe request. -/
theorem subscribe_demands_ok {d : DownId} {sub : SubscribeEntry} {now : J} (h : σ.demands.AllOk) (hseats : σ.SeatsOk)
    (hkept : σ.QosKept (.subscribe d sub now)) (hs : σ.handleSubscribe cfg d sub now = some σ') :
    σ'.demands.AllOk := by
  unfold handleSubscribe at hs
  split at hs
  swap
  · cases hs
    exact h
  rename_i path jSid hpath hjSid
  split at hs
  · cases hs
    exact h
  rename_i hperm
  simp only [subscribePath, Option.bind_eq_bind, Option.bind_eq_some_iff] at hs
  obtain ⟨node, hd, hs⟩ := hs
  have hout : ∀ s, node.reqSubSids.get (toU32 jSid) = some s → node.reqSubPaths.get path ≠ some s →
      σ.freedBy (.subscribe d sub now) = some s ∧ σ.Outranked s := by
    intro s hsid hne
    have hfreed : σ.freedBy (.subscribe d sub now) = some s := by
      simp [freedBy, hpath, hjSid, hd, hsid, hne, hperm]
    refine ⟨hfreed, hkept.1 s ?_⟩
    rw [show σ.leavers (.subscribe d sub now) = (σ.freedBy (.subscribe d sub now)).toList from rfl, hfreed]
    exact List.mem_singleton_self s
  -- a new path below a link is heard there, once the old holder of the sid is gone
  have hears : ∀ gone, (σ.freedBy (.subscribe d sub now)).bind σ.vacated = gone → node.reqSubPaths.get path = none →
      ∀ e out, σ.brokerNodeGet path = some (some (.downstream e, out)) → ∀ m,
        (σ.demands.dropAny gone).resp e = some m → σ.demands.asks e ≠ some none →
          Audible m [(out, (sub.qos.map toU8).getD 0)] := by
    intro gone hgone hnew e out hget m hm hconnected
    have hasked : σ.asked (.subscribe d sub now) = some (e, [out]) := by
      simp [asked, hpath, hjSid, hd, hnew, hperm, hget]
    obtain ⟨node', hnode', hlink⟩ : ∃ node', σ.dnode.get e = some node' ∧ node'.link.isSome := by
      obtain ⟨m', hm'⟩ := Demands.dropAny_resp hm
      obtain ⟨node', hnode', -⟩ := Option.map_eq_some_iff.mp hm'
      refine ⟨node', hnode', ?_⟩
      cases hlink : node'.link with
      | some link => rfl
      | none =>
        refine absurd ?_ hconnected
        show σ.reads messageAsk e = some none
        rw [reads_get hnode', hlink]
        rfl
    have hdemanded : σ.demanded (.subscribe d sub now) = some (e, [(out, (sub.qos.map toU8).getD 0)]) := by
      simp [demanded, hasked, hnode', hlink]
    refine hkept.2 _ hdemanded m ?_
    rw [hgone]
    exact hm
  split at hs
  · rename_i s s' hsid hold
    split at hs
    · exact brokerUpdateSubQos_demands_ok h hseats hs
    · rename_i hne
      simp only [Option.bind_eq_some_iff] at hs
      obtain ⟨τ, hτ, hs⟩ := hs
      obtain ⟨hok, hτseats, -⟩ := freeOutranked h hseats (hout s hsid (by rw [hold]; simpa using Ne.symm hne)).2 hτ
      exact resubscribe_demands_ok hok hτseats hs
  · rename_i s hsid hnew
    simp only [Option.bind_eq_some_iff] at hs
    obtain ⟨τ, hτ, hs⟩ := hs
    obtain ⟨hfreed, hspare⟩ := hout s hsid (by rw [hnew]; simp)
    obtain ⟨hok, hτseats, hresp, hasks⟩ := freeOutranked h hseats hspare hτ
    refine subscribeNew_demands_ok hok hτseats ?_ hs
    intro e out hget m hm hconnected
    rw [hresp] at hm
    rw [hasks] at hconnected
    refine hears _ ?_ hnew e out ?_ m hm hconnected
    · rw [hfreed]
      rfl
    · rw [← hget]
      exact ((Frame.brokerFreeSubRequester hτ).brokerNodeGet (by decide) path).symm
  · exact resubscribe_demands_ok h hseats hs
  · rename_i hsid hnew
    refine subscribeNew_demands_ok h hseats (hears none ?_ hnew) hs
    have hnone : σ.freedBy (.subscribe d sub now) = none := by
      simp [freedBy, hpath, hjSid, hd, hsid]
    rw [hnone]
    rfl

/-- An unsubscribe request. -/
theorem unsubscribe_demands_ok {d : DownId} {sid : Int} (h : σ.demands.AllOk) (hseats : σ.SeatsOk)
    (hkept : σ.QosKept (.unsubscribe d sid)) (hs : σ.handleUnsubscribe d (toU32 sid) = some σ') : σ'.demands.AllOk := by
  simp only [handleUnsubscribe, Option.bind_eq_bind, Option.bind_eq_some_iff] at hs
  obtain ⟨node, hd, hs⟩ := hs
  split at hs
  · cases hs
    exact h
  · rename_i s hsid
    have hf := Frame.forget σ d (toU32 sid)
    have hout : σ.Outranked s := by
      apply hkept.1
      simp [leavers, freedBy, hd, hsid]
    have hdemands := hf.demands (by decide) (hf.reads (by decide))
    refine (freeOutranked (h.congr hdemands) (hseats.frame hf (by decide)) ?_ hs).1
    exact hout

/-- Every event that keeps the maximum. -/
theorem demands_ok_step {e : Event J} (h : σ.demands.AllOk) (hseats : σ.SeatsOk) (hpaths : σ.indexes.PathsOk)
    (hkept : σ.QosKept e) (hs : step cfg σ e = some σ') : σ'.demands.AllOk := by
  cases e with
  | subscribe d sub now =>
    obtain ⟨node, -, -, hs⟩ := onLink_eq hs
    exact subscribe_demands_ok h hseats hkept hs
  | unsubscribe d sid =>
    obtain ⟨node, -, -, hs⟩ := onLink_eq hs
    exact unsubscribe_demands_ok h hseats hkept hs
  | closeLink d =>
    obtain ⟨node, -, -, hs⟩ := onLink_eq hs
    exact brokerCloseLink_demands_ok h hseats hpaths hkept.1 hs
  | connect d =>
    simp only [step, Option.bind_eq_bind, Option.bind_eq_some_iff] at hs
    obtain ⟨node, -, hs⟩ := hs
    split at hs
    · cases hs
    · exact brokerDslinkConnect_demands_ok h hkept hs
  | ack d k =>
    obtain ⟨node, -, -, hs⟩ := onLink_eq hs
    exact h.congr (checkSubscriptionAck_demands hs)
  | update s row => exact h.congr (brokerUpdateSubReq_demands hs)
  | streamUpdate st row => exact h.congr (brokerUpdateSubStream_demands hs)
  | sendOther d => exact h.congr (sendOther_demands hs)
  | removeLink d =>
    simp only [step, Option.bind_eq_bind, Option.bind_eq_some_iff] at hs
    obtain ⟨node, -, hs⟩ := hs
    split at hs
    · cases hs
    · exact freeDownstreamNode_demands_ok h hs
  | nodeValue | invoke | publish | set => exact works_demands_ok h (step_works hs trivial)
  | freeLocal n =>
    refine Calls.invariant (fun τ => τ.demands.AllOk) (step_calls hs) ?_ h
    exact fun τ c υ hok hc hrun => raises_demands_ok hok (Call.removes.raisesNamed (N := fun _ => True) hc).1 hrun
  | addLocal parent name =>
    refine Calls.invariant (fun τ => τ.demands.AllOk) (step_calls hs) ?_ h
    rintro τ c υ hok rfl hrun
    exact @raises_demands_ok _ _ _ _ (.newNode parent name) hok trivial hrun
  | initUpstream | initDownstream =>
    refine Calls.invariant (fun τ => τ.demands.AllOk) (step_calls hs) ?_ h
    rintro τ c υ hok ⟨parent, name, rfl⟩ hrun
    obtain ⟨⟨φ, r⟩, hφ, rfl⟩ := Option.map_eq_some_iff.mp hrun
    exact brokerInitDownstreamNode_demands_ok hok hφ

/-- The nodes the broker starts with have no streams. -/
theorem brokerInit_home (h : brokerInit = some σ) (n : NodeId) : σ.demands.home n = none := by
  have hinit : (brokerInit (J := J)).all (fun σ => (List.range σ.node.next).all
      (fun n => ((σ.node.get n).bind BrokerNode.subStream).isNone)) = true := rfl
  rw [h, Option.all_some, List.all_eq_true] at hinit
  by_cases hn : n < σ.node.next
  · exact Option.isNone_iff_eq_none.mp (hinit n (List.mem_range.mpr hn))
  · show (σ.node.get n).bind _ = none
    rw [Heap.get_of_next_le (Nat.le_of_not_lt hn)]
    rfl

theorem reach_demands (h : Reach (step cfg) QosKept (fun σ => brokerInit = some σ) σ) : σ.demands.AllOk := by
  induction h with
  | start h =>
    rename_i σ
    obtain ⟨-, hdnode, hstream, -⟩ := brokerInit_empty h
    have hnone : ∀ st, σ.demands.stream st = none := by
      intro st
      simp [demands, hstream]
    constructor
    · intro n st hn
      rw [brokerInit_home h] at hn
      cases hn
    · intro d m p st hm
      have hm : (σ.dnode.get d).map _ = some m := hm
      rw [hdnode] at hm
      cases hm
    · intro st x d hx
      rw [hnone] at hx
      cases hx
    · intro st x d _ hx
      rw [hnone] at hx
      cases hx
    · intro st x _ hx
      rw [hnone] at hx
      cases hx
  | next h hok hs ih => exact demands_ok_step ih (reach_seats h) (reach_paths h) hok hs

/-- Every stream of a link that has requesters has the largest qos of them, and if the link is there, the last
    request for the stream carried it. -/
def RespQosMax (σ : Broker J) : Prop :=
  ∀ (st : StreamId) (stream : BrokerSubStream J) (d : DownId), σ.stream.get st = some stream →
    stream.respNode = .downstream d → stream.reqSubs.values ≠ [] →
      (∀ s ∈ stream.reqSubs.values, ∃ req, σ.sub.get s = some req ∧ req.qos ≤ stream.respQos) ∧
      (∃ s ∈ stream.reqSubs.values, ∃ req, σ.sub.get s = some req ∧ req.qos = stream.respQos) ∧
      ∃ path, stream.remotePath = some path ∧ ∀ node link, σ.dnode.get d = some node → node.link = some link →
        lastAsk (link.reads messageAsk) path stream.respSid = some stream.respQos

/-- In every run in which only outranked SubRequesters are freed and no new stream starts with the qos 255, the
    stream of a link has the largest qos of its requesters and the link was asked for it. -/
theorem resp_qos_max (h : Reach (step cfg) QosKept (fun σ => brokerInit = some σ) σ) : σ.RespQosMax := by
  have hok := reach_demands h
  intro st stream d hst hd hne
  have hx := demands_stream hst
  obtain ⟨hle, hmax⟩ := hok.top st _ d id hx hd
  obtain ⟨m, p, hm, hp, -⟩ := hok.filed st _ d hx hd
  have hlive : ∀ {s q}, σ.demands.qos s = some q → ∃ req, σ.sub.get s = some req ∧ req.qos = q :=
    fun hq => Option.map_eq_some_iff.mp hq
  refine ⟨?_, ?_, p, hp, ?_⟩
  · intro s hs
    obtain ⟨e, he⟩ := AssocMap.mem_values.mp hs
    obtain ⟨q, hq, hqle⟩ := hle e s he
    obtain ⟨req, hreq, rfl⟩ := hlive hq
    exact ⟨req, hreq, hqle⟩
  · obtain ⟨s, hs⟩ := List.exists_mem_of_ne_nil _ hne
    obtain ⟨e, he⟩ := AssocMap.mem_values.mp hs
    obtain ⟨e', t, ht, hq⟩ := hmax ⟨e, s, he⟩
    exact ⟨t, AssocMap.mem_values.mpr ⟨e', ht⟩, hlive hq⟩
  · intro node link hnode hlink
    exact hok.told st _ id hx d p _ hd hp (reads_eq_some.mpr ⟨node, link, hnode, hlink, rfl⟩)

/-- Two requesters of one path, the lower one of which goes, and a reconnected link. -/
theorem resp_qos_max_shared : ∃ σ : Broker Nat,
    (σ.stream.get 0).any (fun stream => decide (stream.respQos = 2 ∧ stream.reqSubs.values.length = 1)) = true ∧
      σ.RespQosMax := by
  have hrun := Reach.of_guarded (step smallConfig) QosKept brokerInit
    ([.initDownstream (cstr "a"), .initDownstream (cstr "r"), .initDownstream (cstr "t"), .connect 0, .connect 1,
      .connect 2, .subscribe 1 (readEntry "/downstream/a/x" 1 0) 0, .subscribe 2 (readEntry "/downstream/a/x" 1 2) 0,
      .closeLink 0, .connect 0, .unsubscribe 1 1])
    (fun σ => (σ.stream.get 0).any (fun stream => decide (stream.respQos = 2 ∧ stream.reqSubs.values.length = 1)))
    (by decide)
  obtain ⟨σ, hreach, hcheck⟩ := hrun
  exact ⟨σ, hcheck, resp_qos_max hreach⟩

/-- The requester with the larger qos goes: the stream keeps the qos of one that is gone. -/
theorem resp_qos_not_max : ∃ σ : Broker Nat,
    Reach (step smallConfig) (fun _ _ => True) (fun σ => brokerInit = some σ) σ ∧ ¬σ.RespQosMax := by
  have hrun := Reach.of_eval (step smallConfig) brokerInit
    ([.initDownstream (cstr "a"), .initDownstream (cstr "r"), .initDownstream (cstr "t"), .connect 0, .connect 1,
      .connect 2, .subscribe 1 (readEntry "/downstream/a/x" 1 0) 0, .subscribe 2 (readEntry "/downstream/a/x" 1 2) 0,
      .unsubscribe 2 1])
    (fun σ => (σ.stream.get 0).any (fun stream => decide (stream.respQos = 2 ∧ stream.respNode = .downstream 0 ∧
      stream.reqSubs.values = [0])) && (σ.sub.get 0).any (fun req => decide (req.qos = 0))) (by decide)
  obtain ⟨σ, hreach, hcheck⟩ := hrun
  simp only [Bool.and_eq_true, Option.any_eq_true, decide_eq_true_eq] at hcheck
  obtain ⟨⟨stream, hst, hqos, hnode, hvalues⟩, req, hreq, hlow⟩ := hcheck
  refine ⟨σ, hreach, fun hmax => ?_⟩
  obtain ⟨-, ⟨s, hs, req', hreq', hq⟩, -⟩ := hmax 0 stream 0 hst hnode (by rw [hvalues]; simp)
  rw [hvalues, List.mem_singleton] at hs
  subst hs
  cases hreq.symm.trans hreq'
  omega

end Broker

end DSLink
