import DSLink.Broker.Wire
import DSLink.Broker.Placing

/-!
# `Broker.Connect` — a link comes up

`broker_dslink_connect` sends a subscribe request for every stream of the link and gives every SubRequester that
waits for the link a seat in the stream of its remote path.

## Contents
- `requests`: the subscribe requests on the wire of every link.
- `brokerSubscribeRemote_round`: one waiting SubRequester.
- `connect_exact`: when connecting resolves everything.
-/

namespace DSLink

variable {J : Type} {cfg : Config} {σ σ' : Broker J}

/-! ## Requests on the wire -/

/-- The path and the sid of a subscribe request. -/
def frameRequest (f : Frame J) : Option (CString × Nat) :=
  match f.obj with
  | .subscribe _ path sid _ => some (path, sid)
  | _ => none

/-- The subscribe requests that were sent on a link. -/
def RemoteDSLink.requests (link : RemoteDSLink J) : List (CString × Nat) := link.sent.filterMap frameRequest

/-- The same of a message without its number. -/
def messageRequest (obj : OutMsg J) : Option (CString × Nat) := frameRequest ⟨0, obj⟩

theorem unread_messageRequest : Unread (messageRequest (J := J)) := fun _ _ => rfl

theorem requests_wsSendObj (link : RemoteDSLink J) (obj : OutMsg J) :
    (brokerWsSendObj link obj).1.requests = link.requests ++ (frameRequest ⟨0, obj⟩).toList :=
  reads_wsSendObj messageRequest link obj

namespace Broker

/-- The subscribe requests on the present link of every downstream node. -/
def requests (σ : Broker J) (d : DownId) : Option (Option (List (CString × Nat))) :=
  (σ.dnode.get d).map (fun node => node.link.map RemoteDSLink.requests)

theorem requests_eq_some {d : DownId} {l : List (CString × Nat)} : σ.requests d = some (some l) ↔
    ∃ node link, σ.dnode.get d = some node ∧ node.link = some link ∧ link.requests = l := reads_eq_some (g := messageRequest)

theorem requests_modDnode {d : DownId} {f : DownstreamNode J → DownstreamNode J} {l : Option (List (CString × Nat))}
    (hf : ∀ node, σ.dnode.get d = some node → (f node).link.map RemoteDSLink.requests = l)
    (hd : (σ.dnode.get d).isSome) : (σ.modDnode d f).requests = Function.update σ.requests d (some l) :=
  reads_modDnode (g := messageRequest) hf hd

theorem requests_modDnode_same {d : DownId} {f : DownstreamNode J → DownstreamNode J}
    (hf : ∀ node, σ.dnode.get d = some node →
      (f node).link.map RemoteDSLink.requests = node.link.map RemoteDSLink.requests) :
    (σ.modDnode d f).requests = σ.requests := reads_modDnode_same (g := messageRequest) hf

theorem sendLastValue_requests {s : SubId} {st : StreamId} (h : sendLastValue cfg σ s st = some σ') :
    σ'.requests = σ.requests := sendLastValue_reads unread_messageRequest h

theorem sendSubscribeRequest_total {d : DownId} {l : List (CString × Nat)} (h : σ.requests d = some (some l))
    (path : CString) (sid qos : Nat) : ∃ σ', sendSubscribeRequest σ d path sid qos = some σ' ∧
      σ'.requests = Function.update σ.requests d (some (some (l ++ [(path, sid)]))) := by
  obtain ⟨node, link, hd, hlink, rfl⟩ := requests_eq_some.mp h
  refine ⟨σ.modDnode d (fun _ =>
    { node with
      rid := incrRid node.rid
      link := some (brokerWsSendObj link (.subscribe (incrRid node.rid) path sid qos)).1 }), ?_, ?_⟩
  · simp [sendSubscribeRequest, DownstreamNode.wsSend, hd, hlink]
  · apply requests_modDnode
    · intro node' _
      rw [Option.map_some, requests_wsSendObj]
      rfl
    · rw [hd]
      rfl

/-! ## The calls that always return -/

theorem serializeQosQueue_total {s : SubId} {req : SubRequester J} (h : σ.Homes) (hs : σ.sub.get s = some req)
    (delete : Bool) : ∃ σ', serializeQosQueue σ s delete = some σ' := by
  obtain ⟨node, hd⟩ := h s req hs
  exact ⟨_, by simp only [serializeQosQueue, hs, hd, Option.bind_eq_bind, Option.bind_some]; rfl⟩

theorem clearQosQueue_total {s : SubId} {req : SubRequester J} (h : σ.Homes) (hs : σ.sub.get s = some req)
    (serialize : Bool) : ∃ σ', clearQosQueue σ s serialize = some σ' := by
  have hf : Frame [.qosQueue] σ (σ.modSub s (fun req => { req with qosQueue := req.qosQueue.map (fun _ => []) })) := by
    apply Frame.modSub
    intro p hp r
    cases p <;> simp_all [SubRequester.Agree]
  obtain ⟨req', hs', -⟩ := hf.sub (p := .subs) (by decide) (by simp) hs
  simp only [clearQosQueue, hs, Option.bind_eq_bind, Option.bind_some, serializeIf]
  split
  · exact serializeQosQueue_total (h.frame hf (by decide) (by decide)) hs' false
  · exact ⟨_, rfl⟩

theorem brokerUpdateSubReq_total {s : SubId} {req : SubRequester J} (h : σ.Homes) (hs : σ.sub.get s = some req)
    (row : Row J) : ∃ σ', brokerUpdateSubReq cfg σ s row = some σ' := by
  obtain ⟨node, hd⟩ := h s req hs
  simp only [brokerUpdateSubReq, hs, hd, Option.bind_eq_bind, Option.bind_some]
  have hhomes : ({ σ with published := σ.published ++ [(s, row)] } : Broker J).Homes := h
  have hmod : ∀ f : SubRequester J → SubRequester J, (∀ r, (f r).path = r.path ∧ (f r).reqNode = r.reqNode) →
      (({ σ with published := σ.published ++ [(s, row)] } : Broker J).modSub s f).Homes ∧
      (({ σ with published := σ.published ++ [(s, row)] } : Broker J).modSub s f).sub.get s = some (f req) := by
    intro f hf
    refine ⟨?_, ?_⟩
    · intro t r ht
      have ht : (σ.sub.modify s f).get t = some r := ht
      rw [Heap.get_modify] at ht
      split at ht
      · obtain ⟨r', hr', rfl⟩ := Option.map_eq_some_iff.mp ht
        rw [(hf r').2]
        exact h s r' hr'
      · exact h t r ht
    · show (σ.sub.modify s f).get s = _
      rw [Heap.get_modify_self, hs]
      rfl
  split
  · obtain ⟨q, hq⟩ : ∃ q, addToMessageQueue cfg req.messageQueue row 0 = some q := by
      unfold addToMessageQueue
      split
      · exact ⟨_, rfl⟩
      · obtain ⟨rb, hrb, -⟩ := Ringbuffer.rbInit_of_pos (α := QueuedMessage J)
          (Nat.lt_of_lt_of_le (by decide : 0 < 16) cfg.qos_ge)
        rw [hrb]
        exact ⟨_, rfl⟩
    rw [hq, Option.bind_some]
    obtain ⟨hhomes', hs'⟩ := hmod (fun req => { req with messageQueue := some q }) (fun _ => ⟨rfl, rfl⟩)
    exact sendQueuedMessages_total hhomes' hs'
  · split
    · exact ⟨_, rfl⟩
    · split
      · obtain ⟨hhomes', hs'⟩ := hmod (fun req' => { req' with qosQueue := some (req.qosQueue.getD []) })
          (fun _ => ⟨rfl, rfl⟩)
        exact clearQosQueue_total hhomes' hs' true
      · obtain ⟨hhomes', hs'⟩ := hmod (fun req' => { req' with qosQueue := some (req.qosQueue.getD [] ++ [row]) })
          (fun _ => ⟨rfl, rfl⟩)
        exact serializeQosQueue_total hhomes' hs' false

theorem sendLastValue_total {s : SubId} {st : StreamId} {req : SubRequester J} {stream : BrokerSubStream J}
    (h : σ.Homes) (hs : σ.sub.get s = some req) (hst : σ.stream.get st = some stream) :
    ∃ σ', sendLastValue cfg σ s st = some σ' := by
  simp only [sendLastValue, hst, Option.bind_eq_bind, Option.bind_some]
  split
  · exact ⟨_, rfl⟩
  · exact brokerUpdateSubReq_total h hs _

theorem maxQosOf_total {subs : List SubId} (h : ∀ s ∈ subs, ∃ req, σ.sub.get s = some req) :
    ∃ q, σ.maxQosOf subs = some q := by
  induction subs with
  | nil => exact ⟨0, rfl⟩
  | cons s subs ih =>
    obtain ⟨req, hs⟩ := h s List.mem_cons_self
    obtain ⟨q, hq⟩ := ih (fun t ht => h t (List.mem_cons_of_mem _ ht))
    exact ⟨max req.qos q, by simp [maxQosOf, hs, hq]⟩

/-- The largest qos of a stream is an upper bound, and a qos of one of its SubRequesters unless it is 0. -/
theorem maxQosOf_spec {subs : List SubId} {q : Nat} (h : σ.maxQosOf subs = some q) :
    (∀ s ∈ subs, ∀ req, σ.sub.get s = some req → req.qos ≤ q) ∧
      (q = 0 ∨ ∃ s ∈ subs, ∃ req, σ.sub.get s = some req ∧ req.qos = q) := by
  induction subs generalizing q with
  | nil =>
    cases h
    exact ⟨by simp, .inl rfl⟩
  | cons s subs ih =>
    simp only [maxQosOf, Option.bind_eq_bind, Option.bind_eq_some_iff] at h
    obtain ⟨req, hs, q', hq', h⟩ := h
    obtain rfl := Option.some.inj h
    obtain ⟨hle, hmax⟩ := ih hq'
    constructor
    · intro t ht req' ht'
      rcases List.mem_cons.mp ht with rfl | ht
      · cases hs.symm.trans ht'
        exact Nat.le_max_left _ _
      · exact (hle t ht req' ht').trans (Nat.le_max_right _ _)
    · rcases Nat.le_total q' req.qos with hge | hge
      · rw [Nat.max_eq_left hge]
        exact .inr ⟨s, List.mem_cons_self, req, hs, rfl⟩
      · rw [Nat.max_eq_right hge]
        rcases hmax with h0 | ⟨t, ht, req', ht', hq⟩
        · exact .inl h0
        · exact .inr ⟨t, List.mem_cons_of_mem _ ht, req', ht', hq⟩

/-! ## One waiting SubRequester -/

/-- Whether `broker_update_stream_qos` sends: it does when the qos of the stream changes. -/
def resent (stream : BrokerSubStream J) (path : CString) (qos : Nat) : List (CString × Nat) :=
  if qos = stream.respQos then [] else [(path, stream.respSid)]

theorem brokerUpdateStreamQos_spec (d : DownId) (st : StreamId) {stream : BrokerSubStream J} {path : CString}
    {l : List (CString × Nat)} (hst : σ.stream.get st = some stream) (hpath : stream.remotePath = some path)
    (hnode : stream.respNode = .downstream d) (hl : σ.requests d = some (some l))
    (hlive : ∀ s ∈ stream.reqSubs.values, ∃ req, σ.sub.get s = some req) :
    ∃ q σ', σ.maxQosOf stream.reqSubs.values = some q ∧ brokerUpdateStreamQos σ (some st) = some σ' ∧
      σ'.stream.get st = some { stream with respQos := q } ∧
      (∀ t, t ≠ st → σ'.stream.get t = σ.stream.get t) ∧ σ'.seats = σ.seats ∧
      σ'.requests = Function.update σ.requests d (some (some (l ++ resent stream path q))) := by
  obtain ⟨q, hq⟩ := maxQosOf_total hlive
  obtain ⟨node, link, hd, hlink, hlreq⟩ := requests_eq_some.mp hl
  set τ := σ.modStream st (fun stream => { stream with respQos := q }) with hτ
  have hτl : τ.requests d = some (some l) := hl
  have hstream : ∀ t, τ.stream.get t = if t = st then some { stream with respQos := q } else σ.stream.get t := by
    intro t
    show (σ.stream.modify st _).get t = _
    rw [Heap.get_modify, hst]
    rfl
  by_cases hsame : q = stream.respQos
  · have hrun : brokerUpdateStreamQos σ (some st) = some τ := by
      simp [brokerUpdateStreamQos, hst, hpath, hnode, hq, hd, hsame, hτ]
    refine ⟨q, τ, hq, hrun, by rw [hstream, if_pos rfl], fun t ht => by rw [hstream, if_neg ht],
      brokerUpdateStreamQos_seats hrun, ?_⟩
    rw [resent, if_pos hsame, List.append_nil, ← hl, Function.update_eq_self]
    rfl
  · obtain ⟨σ', hσ', hreq⟩ := sendSubscribeRequest_total hτl path stream.respSid q
    have hrun : brokerUpdateStreamQos σ (some st) = some σ' := by
      simp [brokerUpdateStreamQos, hst, hpath, hnode, hq, hd, hlink, hsame]
      exact hσ'
    have hkeep : σ'.stream = τ.stream := by
      simp only [sendSubscribeRequest, Option.bind_eq_bind, Option.bind_eq_some_iff] at hσ'
      obtain ⟨-, -, node', -, hσ'⟩ := hσ'
      cases hσ'
      rfl
    refine ⟨q, σ', hq, hrun, ?_, ?_, brokerUpdateStreamQos_seats hrun, ?_⟩
    · rw [hkeep, hstream, if_pos rfl]
    · intro t ht
      rw [hkeep, hstream, if_neg ht]
    · rw [hreq, resent, if_neg hsame]
      rfl

/-- A stream that neither its place nor its values change is the same. -/
theorem Frame.stream_get {ps : List Part} (h : Frame ps σ σ') (hstreams : Part.streams ∉ ps)
    (hvalues : Part.values ∉ ps) (st : StreamId) : σ'.stream.get st = σ.stream.get st := by
  have h1 : Heap.Rel (BrokerSubStream.Agree .streams) σ.stream σ'.stream := h _ hstreams
  have h2 : Heap.Rel (BrokerSubStream.Agree .values) σ.stream σ'.stream := h _ hvalues
  cases hg : σ.stream.get st with
  | none => exact h1.get_none.mpr hg
  | some stream =>
    obtain ⟨stream', hst, hnode, hsid, hpath, hsubs⟩ := h1.get hg
    obtain ⟨stream'', hst', hvalue, hqos⟩ := h2.get hg
    cases hst.symm.trans hst'
    rw [hst]
    cases stream
    cases stream'
    simp_all

/-- The stream of `d` for a path: the one it has, or a new one that never asked for a qos. -/
theorem remoteStream_spec {d : DownId} {node : DownstreamNode J} (h : σ.SeatsOk) (hd : σ.dnode.get d = some node)
    (path : CString) : ∃ τ st stream, σ.remoteStream d node path = (τ, st) ∧ τ.SeatsOk ∧ τ.sub = σ.sub ∧
      τ.requests = σ.requests ∧ τ.pendingList = σ.pendingList ∧ τ.stream.get st = some stream ∧
      stream.respNode = .downstream d ∧ stream.remotePath = some path ∧
      τ.seats.resp = Function.update σ.seats.resp d (some (Function.update node.respSubStreams.get path (some st))) ∧
      (∀ t stream', σ.stream.get t = some stream' → τ.stream.get t = some stream') ∧
      (node.respSubStreams.get path = some st ∧ σ.stream.get st = some stream ∨
        node.respSubStreams.get path = none ∧ σ.stream.get st = none ∧ stream.respQos = 255 ∧
          stream.reqSubs = .empty) := by
  have hresp : σ.seats.resp d = some node.respSubStreams.get := by simp [seats, hd]
  cases hget : node.respSubStreams.get path with
  | some st =>
    obtain ⟨x, hx, hnode, hpath⟩ := h.streams d _ path st hresp hget
    obtain ⟨stream, hst, rfl⟩ := seats_stream_eq_some.mp hx
    refine ⟨σ, st, stream, by simp [remoteStream, hget], h, rfl, rfl, rfl, hst, hnode, hpath, ?_, fun _ _ => id,
      .inl ⟨rfl, hst⟩⟩
    rw [← hget, Function.update_eq_self, ← hresp, Function.update_eq_self]
  | none =>
    have hok := initRemoteStream_seats_ok h d node path
    refine ⟨(σ.initRemoteStream d node path).1, σ.stream.next, _, by simp [remoteStream, hget, initRemoteStream], hok,
      rfl, ?_, rfl, Heap.get_alloc_next _ _, rfl, rfl, ?_, ?_, .inr ⟨rfl, Heap.get_next _, rfl, rfl⟩⟩
    · exact requests_modDnode_same (fun _ _ => rfl)
    · have hseats := fun τ : Broker J => seats_modDnode (σ := τ) (d := d) (f := fun node' => { node' with
          sid := (incrSid node.sid).1
          respSubStreams := node'.respSubStreams.set path σ.stream.next
          respSubSids := node'.respSubSids.set (incrSid node.sid).2 σ.stream.next })
        (g := fun m => Function.update m path (some σ.stream.next)) (by
          intro node'
          funext p
          rw [AssocMap.get_set, Function.update_apply])
      refine (congrArg Seats.resp (hseats _)).trans ?_
      show Function.update σ.seats.resp d ((σ.seats.resp d).map _) = _
      rw [hresp]
      rfl
    · intro t stream' ht
      exact Heap.get_alloc_of_get ht

/-- The streams that were there are still there, and nobody but `s` took a seat in one, in `st` for `e`. -/
def KeepsStreams (σ σ' : Broker J) (st : StreamId) (e : DownId) : Prop :=
  ∀ t stream, σ.stream.get t = some stream → ∃ stream', σ'.stream.get t = some stream' ∧
    stream'.respSid = stream.respSid ∧ (t ≠ st → stream' = stream) ∧
    ∀ e' u, ¬(t = st ∧ e' = e) → stream.reqSubs.get e' = some u → stream'.reqSubs.get e' = some u

/-- What one round of the loop over the waiting SubRequesters does: `s` sits in the stream `st`, which `d` has
    under `path`, and the request for it is sent again if its qos changed from `old`. -/
structure Round (σ σ' : Broker J) (d : DownId) (s : SubId) (req : SubRequester J) (path : CString)
    (m : CString → Option StreamId) (l : List (CString × Nat)) (st : StreamId) (stream : BrokerSubStream J)
    (old : Nat) : Prop where
  seating : σ.Seating σ' s
  resp : σ'.seats.resp = Function.update σ.seats.resp d (some (Function.update m path (some st)))
  found : m path = some st ∧ (∃ stream0, σ.stream.get st = some stream0 ∧ stream0.respQos = old) ∨
    m path = none ∧ σ.stream.get st = none ∧ old = 255
  sub : σ'.seats.sub s = some { req.seat with stream := some st }
  live : σ'.stream.get st = some stream
  respNode : stream.respNode = .downstream d
  remotePath : stream.remotePath = some path
  seat : stream.reqSubs.get req.reqNode = some s
  alone : m path = none → ∀ e t, stream.reqSubs.get e = some t → t = s
  keeps : σ.KeepsStreams σ' st req.reqNode
  qosLe : ∀ e t, stream.reqSubs.get e = some t → ∀ r, σ.sub.get t = some r → r.qos ≤ stream.respQos
  qosMax : stream.respQos = 0 ∨
    ∃ e t r, stream.reqSubs.get e = some t ∧ σ.sub.get t = some r ∧ r.qos = stream.respQos
  requests : σ'.requests = Function.update σ.requests d
    (some (some (l ++ if stream.respQos = old then [] else [(path, stream.respSid)])))

theorem brokerSubscribeRemote_round {d : DownId} {s : SubId} {req : SubRequester J} {node : DownstreamNode J}
    {l : List (CString × Nat)} (h : σ.SeatsOk) (hhomes : σ.Homes) (hs : σ.Unplaced s) (hreq : σ.sub.get s = some req)
    (hd : σ.dnode.get d = some node) (hl : σ.requests d = some (some l)) (path : CString) :
    ∃ σ' st stream old, σ.brokerSubscribeRemote cfg d s path = some σ' ∧
      σ.Round σ' d s req path node.respSubStreams.get l st stream old := by
  obtain ⟨req', hreq', hnone, hw⟩ := id hs
  cases hreq.symm.trans hreq'
  obtain ⟨τ, st, stream0, hτ, hτok, hτsub, hτreq, hτw, hst0, hnode0, hpath0, hτresp, hτkeep, hfound⟩ :=
    remoteStream_spec h hd path
  -- the seat
  set ρ := τ.attach s st req.reqNode with hρ
  set stream1 : BrokerSubStream J := { stream0 with reqSubs := stream0.reqSubs.set req.reqNode s } with hstream1
  have hρok : ρ.SeatsOk := attach_ok hτok (by rw [hτsub]; exact hreq) hnone (by rw [hτw]; exact hw) hst0 id
  have hρst : ∀ t, ρ.stream.get t = if t = st then some stream1 else τ.stream.get t := by
    intro t
    show (τ.stream.modify st _).get t = _
    rw [Heap.get_modify, hst0]
    rfl
  have hρsub : ∀ t, ρ.sub.get t = if t = s then some { req with stream := some st } else σ.sub.get t := by
    intro t
    show (τ.sub.modify s _).get t = _
    rw [Heap.get_modify, hτsub, hreq]
    rfl
  have hρqos : ∀ t r, ρ.sub.get t = some r → ∃ r', σ.sub.get t = some r' ∧ r'.qos = r.qos := by
    intro t r hr
    rw [hρsub] at hr
    split at hr
    · rename_i ht
      cases hr
      exact ⟨req, ht ▸ hreq, rfl⟩
    · exact ⟨r, hr, rfl⟩
  have hρlive : ∀ t ∈ stream1.reqSubs.values, ∃ r, ρ.sub.get t = some r := by
    intro t ht
    obtain ⟨e, he⟩ := AssocMap.mem_values.mp ht
    obtain ⟨k, hk, -⟩ := hρok.seated st _ e t id (seats_stream (by rw [hρst, if_pos rfl])) he
    obtain ⟨r, hr, -⟩ := seats_sub_eq_some.mp hk
    exact ⟨r, hr⟩
  -- the qos of the stream
  obtain ⟨q, υ, hq, hυ, hυst, hυother, hυseats, hυreq⟩ := brokerUpdateStreamQos_spec d st
    (by rw [hρst, if_pos rfl] : ρ.stream.get st = some stream1) hpath0 hnode0
    (show ρ.requests d = some (some l) from (congrFun hτreq d).trans hl) hρlive
  have hυframe : Frame attachParts σ υ := by
    have hτframe := Frame.remoteStream σ d node path
    rw [hτ] at hτframe
    exact (hτframe.mono (by decide)).trans (((Frame.attach τ s st req.reqNode).mono (by decide)).trans
      ((Frame.brokerUpdateStreamQos hυ).mono (by decide)))
  -- the last value
  have hυsub : υ.seats.sub s = some { req.seat with stream := some st } := by
    rw [hυseats, seats_sub ((hρsub s).trans (if_pos rfl))]
    rfl
  obtain ⟨reqυ, hreqυ, -⟩ := seats_sub_eq_some.mp hυsub
  obtain ⟨σ', hσ'⟩ := @sendLastValue_total J cfg υ s st _ _
    (hhomes.frame hυframe (by decide) (by decide)) hreqυ hυst
  have hrun : σ.brokerSubscribeRemote cfg d s path = some σ' := by
    simp only [brokerSubscribeRemote, hd, hreq, hτ, Option.bind_eq_bind, Option.bind_some]
    rw [← hρ, hυ]
    exact hσ'
  -- sending the last value changes neither streams nor seats
  have hstream' := (Frame.sendLastValue hσ').stream_get (by decide) (by decide)
  have hseats' : σ'.seats = ρ.seats := (sendLastValue_seats hσ').trans hυseats
  refine ⟨σ', st, { stream1 with respQos := q }, stream0.respQos, hrun, ?_⟩
  exact {
    seating := brokerSubscribeRemote_seating h hs hrun
    resp := by
      rw [hseats', ← hτresp]
      rfl
    found := by
      rcases hfound with ⟨hpath, hst⟩ | ⟨hpath, hst, hqos, -⟩
      · exact .inl ⟨hpath, stream0, hst, rfl⟩
      · exact .inr ⟨hpath, hst, hqos⟩
    sub := by rw [sendLastValue_seats hσ', hυsub]
    live := by rw [hstream', hυst]
    respNode := hnode0
    remotePath := hpath0
    seat := AssocMap.get_set_self _ _ _
    alone := by
      intro hpath e t ht
      rcases hfound with ⟨hpath', -⟩ | ⟨-, -, -, hempty⟩
      · rw [hpath] at hpath'
        cases hpath'
      · have ht : (stream0.reqSubs.set req.reqNode s).get e = some t := ht
        rw [hempty, AssocMap.get_set] at ht
        split at ht
        · exact (Option.some.inj ht).symm
        · cases ht
    keeps := by
      intro t stream ht
      by_cases hts : t = st
      · subst hts
        have hsame : stream = stream0 := Option.some.inj ((hτkeep t stream ht).symm.trans hst0)
        subst hsame
        refine ⟨{ stream1 with respQos := q }, by rw [hstream', hυst], rfl, fun hne => absurd rfl hne, ?_⟩
        intro e' u hne hu
        show (stream.reqSubs.set req.reqNode s).get e' = some u
        rw [AssocMap.get_set_ne (fun he => hne ⟨rfl, he⟩)]
        exact hu
      · refine ⟨stream, ?_, rfl, fun _ => rfl, fun _ _ _ hu => hu⟩
        rw [hstream', hυother t hts, hρst, if_neg hts]
        exact hτkeep t stream ht
    qosLe := by
      intro e t ht r hr
      have hle := (maxQosOf_spec hq).1 t (AssocMap.mem_values.mpr ⟨e, ht⟩)
      by_cases hts : t = s
      · subst hts
        cases hreq.symm.trans hr
        exact hle { req with stream := some st } ((hρsub t).trans (if_pos rfl))
      · exact hle r (by rw [hρsub, if_neg hts]; exact hr)
    qosMax := by
      rcases (maxQosOf_spec hq).2 with h0 | ⟨t, ht, r, hr, hrq⟩
      · exact .inl h0
      · obtain ⟨e, he⟩ := AssocMap.mem_values.mp ht
        obtain ⟨r', hr', hqos⟩ := hρqos t r hr
        exact .inr ⟨e, t, r', he, hr', hqos.trans hrq⟩
    requests := by
      rw [sendLastValue_requests hσ', hυreq]
      show Function.update ρ.requests d _ = _
      rw [show ρ.requests = σ.requests from hτreq]
      rfl }

/-! ## The qos of a SubRequester is a byte -/

/-- No SubRequester has a qos above 255. -/
def QosOk (σ : Broker J) : Prop := ∀ s req, σ.sub.get s = some req → req.qos ≤ 255

/-- Every SubRequester comes from one with its qos. -/
theorem QosOk.of_rev (h : σ.QosOk) (hrev : ∀ t r', σ'.sub.get t = some r' → ∃ r, σ.sub.get t = some r ∧ r'.qos = r.qos) :
    σ'.QosOk := by
  intro t r' hr'
  obtain ⟨r, hr, hq⟩ := hrev t r' hr'
  rw [hq]
  exact h t r hr

theorem QosOk.frame {ps : List Part} (h : σ.QosOk) (hf : Frame ps σ σ') (hqos : Part.qos ∉ ps) : σ'.QosOk := by
  apply h.of_rev
  intro t r' hr'
  exact hf.sub_rev hqos (by simp) hr'

theorem QosOk.freeSub {s : SubId} (h : σ.QosOk) (hs : σ.brokerFreeSubRequester s = some σ') : σ'.QosOk := by
  simp only [brokerFreeSubRequester, releaseSub, Option.bind_eq_bind, Option.bind_eq_some_iff] at hs
  obtain ⟨τ, ⟨req, -, node, -, τ1, h1, τ2, h2, h3⟩, υ, hυ, hs⟩ := hs
  obtain rfl := Option.some.inj hs
  have hf : Frame [.pending, .place, .resp, .link, .streams, .values, .subStream, .storage, .qosQueue, .queue, .acks]
      (σ.dropIndexes req) υ :=
    ((Frame.dropPending _ s req).mono (by decide)).trans (((Frame.leaveStream h1).mono (by decide)).trans
      (((Frame.dropStored h2).mono (by decide)).trans (((Frame.dropQosQueue h3).mono (by decide)).trans
        ((Frame.purgePendingAcks hυ).mono (by decide)))))
  have hυok : υ.QosOk := QosOk.frame (σ := σ.dropIndexes req) h hf (by decide)
  intro t r ht
  exact hυok t r (Heap.get_free_eq_some.mp ht).2

theorem QosOk.closeLink {d : DownId} (h : σ.QosOk) (hs : σ.brokerCloseLink d = some σ') : σ'.QosOk := by
  simp only [brokerCloseLink, brokerRemoteDslinkFree, Option.bind_eq_bind, Option.bind_eq_some_iff] at hs
  obtain ⟨ω, ⟨node, -, ⟨τ, subs⟩, hτ, υ, hυ, node', -, χ, hχ, hω⟩, hs⟩ := hs
  obtain rfl := Option.some.inj hω
  obtain rfl := Option.some.inj hs
  have h0 : (σ.modDnode d (fun node => { node with pendingAcks := node.pendingAcks.map Vec.free })).QosOk := h
  have hυok : υ.QosOk := by
    refine foldlM_invariant QosOk ?_ hυ (h0.frame (Frame.collectNonQos hτ) (by decide))
    intro σ s _ σ' hok hs
    exact hok.freeSub hs
  have hχok : χ.QosOk := hυok.frame (Frame.resetSids hχ) (by decide)
  exact hχok

/-- The calls that give no SubRequester a qos. -/
def keepsQos : Call J → Prop
  | .subQos .. | .newSub .. => False
  | _ => True

theorem QosOk.call {c : Call J} (h : σ.QosOk) (hc : keepsQos c) (hs : c.run cfg σ = some σ') : σ'.QosOk := by
  cases c with
  | subQos | newSub => exact hc.elim
  | freeSub s => exact h.freeSub hs
  | closeLink d => exact h.closeLink hs
  | _ => exact h.frame (Call.frame hs) (by simp [Call.parts, updateParts, sendParts, nodeParts, dnodeParts, streamFreeParts])

theorem QosOk.calls {A : Call J → Prop} (h : σ.QosOk) (hs : Calls cfg A σ σ') (hA : ∀ c, A c → keepsQos c) :
    σ'.QosOk :=
  Calls.invariant QosOk hs (fun _ c _ hok hc hrun => hok.call (hA c hc) hrun) h

theorem QosOk.subQos {s : SubId} {qos : Nat} (h : σ.QosOk) (hqos : qos ≤ 255)
    (hs : brokerUpdateSubQos σ s qos = some σ') : σ'.QosOk := by
  simp only [brokerUpdateSubQos, Option.bind_eq_bind, Option.bind_eq_some_iff] at hs
  obtain ⟨req, -, hs⟩ := hs
  split at hs
  · cases hs
    exact h
  · simp only [Option.bind_eq_some_iff] at hs
    obtain ⟨τ, hτ, υ, hυ, hs⟩ := hs
    have hmod : (σ.modSub s (fun req => { req with qos := qos })).QosOk := by
      intro t r ht
      have ht : (σ.sub.modify s _).get t = some r := ht
      rw [Heap.get_modify] at ht
      split at ht
      · obtain ⟨r', -, rfl⟩ := Option.map_eq_some_iff.mp ht
        exact hqos
      · exact h t r ht
    have hτok : τ.QosOk := hmod.frame (Frame.serializeIf hτ) (by decide)
    have hqueue : (τ.modSub s (fun req => { req with qosQueue :=
        if 0 < req.qos ∧ req.qosQueue = none then some [] else req.qosQueue })).QosOk := by
      apply @QosOk.frame J _ _ [.qosQueue] hτok _ (by decide)
      apply Frame.modSub
      intro p hp r
      cases p <;> simp_all [SubRequester.Agree]
    exact (hqueue.frame (Frame.brokerUpdateStreamQos hυ) (by decide)).frame (Frame.serializeIf hs) (by decide)

theorem QosOk.resubscribe {d : DownId} {s : SubId} {sid qos : Nat} (h : σ.QosOk) (hqos : qos ≤ 255)
    (hs : σ.resubscribe cfg d s sid qos = some σ') : σ'.QosOk := by
  simp only [Broker.resubscribe, Option.bind_eq_bind, Option.bind_eq_some_iff] at hs
  obtain ⟨τ, hτ, υ, hυ, hs⟩ := hs
  have hok := (h.frame (Frame.rekey hτ) (by decide)).subQos hqos hυ
  simp only [sendWaiting, Option.bind_eq_bind, Option.bind_eq_some_iff] at hs
  obtain ⟨req, -, hs⟩ := hs
  split at hs
  · exact hok.frame (Frame.brokerUpdateSubReqQos hs) (by decide)
  · split at hs
    · exact hok.frame (Frame.sendQueuedMessages hs) (by decide)
    · split at hs
      · cases hs
        exact hok
      · exact hok.frame (Frame.sendLastValue hs) (by decide)

theorem QosOk.subscribeNew {d : DownId} {path : CString} {sid qos : Nat} {now : J} (h : σ.QosOk) (hqos : qos ≤ 255)
    (hs : σ.subscribeNew cfg d path sid qos now = some σ') : σ'.QosOk := by
  obtain ⟨τ, respNode, hτ, -, hs⟩ := subscribeNew_calls hs
  have hτok : τ.QosOk := by
    simp only [newSub, Option.bind_eq_bind, Option.bind_eq_some_iff] at hτ
    obtain ⟨υ, hυ, hτ⟩ := hτ
    obtain rfl := Option.some.inj hτ
    obtain ⟨m, rfl⟩ := serializeIf_eq hυ
    intro t r ht
    have ht : (σ.sub.alloc _).get t = some r := ht
    rw [Heap.get_alloc] at ht
    split at ht
    · cases ht
      exact hqos
    · exact h t r ht
  exact hτok.calls (placeSub_calls hs) (fun c hc => by cases c <;> simp [Call.places] at hc <;> trivial)

theorem QosOk.step {e : Event J} (h : σ.QosOk) (hs : step cfg σ e = some σ') : σ'.QosOk := by
  cases e with
  | subscribe d sub now =>
    obtain ⟨node, -, -, hs⟩ := onLink_eq hs
    unfold handleSubscribe at hs
    split at hs
    · split at hs
      · cases hs
        exact h
      · have hqos : (sub.qos.map toU8).getD 0 ≤ 255 := by
          cases sub.qos with
          | none => exact Nat.zero_le _
          | some x =>
            show (x % 256).toNat ≤ 255
            omega
        simp only [subscribePath, Option.bind_eq_bind, Option.bind_eq_some_iff] at hs
        obtain ⟨node, -, hs⟩ := hs
        split at hs
        · split at hs
          · exact h.subQos hqos hs
          · simp only [Option.bind_eq_some_iff] at hs
            obtain ⟨τ, hτ, hs⟩ := hs
            exact (h.freeSub hτ).resubscribe hqos hs
        · simp only [Option.bind_eq_some_iff] at hs
          obtain ⟨τ, hτ, hs⟩ := hs
          exact (h.freeSub hτ).subscribeNew hqos hs
        · exact h.resubscribe hqos hs
        · exact h.subscribeNew hqos hs
    · cases hs
      exact h
  | _ =>
    apply h.calls (step_calls hs)
    intro c hc
    cases c <;> simp [Event.calls, Call.builds, Call.updates, Call.removes, Call.connects] at hc <;> trivial

theorem reach_qos {ok : Broker J → Event J → Prop} (h : Reach (step cfg) ok (fun σ => brokerInit = some σ) σ) :
    σ.QosOk := by
  refine Reach.invariant QosOk ?_ (fun σ e σ' hok _ hs => hok.step hs) h
  intro σ hσ s req hs
  rw [(brokerInit_empty hσ).1] at hs
  cases hs

/-! ## The loop over the waiting SubRequesters -/

/-- The first of `subs` that waits for the remote path `p` of a link whose path has `len` bytes. -/
def firstWaiting (σ : Broker J) (len : Nat) (subs : List SubId) (p : CString) : Option (SubRequester J) :=
  (subs.filterMap σ.sub.get).find? (fun req => req.path.drop len = p)

theorem firstWaiting_snoc {len : Nat} {subs : List SubId} {s : SubId} {req : SubRequester J}
    (hs : σ.sub.get s = some req) (p : CString) : σ.firstWaiting len (subs ++ [s]) p =
      (σ.firstWaiting len subs p).or (if req.path.drop len = p then some req else none) := by
  unfold firstWaiting
  rw [List.filterMap_append, List.find?_append]
  congr 1
  simp only [List.filterMap_cons, hs, List.filterMap_nil, List.find?_cons, List.find?_nil]
  by_cases hp : req.path.drop len = p <;> simp [hp]

theorem firstWaiting_eq_none {len : Nat} {subs : List SubId} {p : CString} :
    σ.firstWaiting len subs p = none ↔ ∀ s ∈ subs, ∀ req, σ.sub.get s = some req → req.path.drop len ≠ p := by
  unfold firstWaiting
  rw [List.find?_eq_none]
  simp only [List.mem_filterMap, decide_eq_true_eq, forall_exists_index, and_imp]
  exact ⟨fun h s hs req hreq => h req s hs hreq, fun h req s hs hreq => h s hs req hreq⟩

/-- A path without a stream whose first SubRequester asks for the qos a new stream starts with, so that no request
    is sent for it. -/
def Silent (σ : Broker J) (m : CString → Option StreamId) (len : Nat) (subs : List SubId) (p : CString) : Prop :=
  m p = none ∧ ∃ req, σ.firstWaiting len subs p = some req ∧ req.qos = 255

/-- The loop has placed `done`: `m` are the streams of `d` before it and `m'` those now, `l` the requests sent. -/
structure Resolved (σ τ : Broker J) (d : DownId) (len : Nat) (done : List SubId) (m m' : CString → Option StreamId)
    (l : List (CString × Nat)) : Prop where
  frame : Frame attachParts σ τ
  ok : τ.SeatsOk
  waiting : τ.pendingList = σ.pendingList
  todo : ∀ t, t ∉ done → τ.seats.sub t = σ.seats.sub t
  resp : τ.seats.resp d = some m'
  requests : τ.requests d = some (some l)
  keys : ∀ p, (m' p).isSome ↔ (m p).isSome ∨ ∃ s ∈ done, ∃ req, σ.sub.get s = some req ∧ req.path.drop len = p
  known : ∀ p sid, (p, sid) ∈ l → (m' p).isSome
  asked : ∀ p st, m' p = some st → ∃ stream, τ.stream.get st = some stream ∧
    ((p, stream.respSid) ∈ l ↔ ¬σ.Silent m len done p) ∧ (σ.Silent m len done p → stream.respQos = 255 ∧
      ∃ t ∈ done, ∃ r, σ.sub.get t = some r ∧ r.path.drop len = p ∧ stream.reqSubs.get r.reqNode = some t ∧ r.qos = 255)
  attached : ∀ s ∈ done, ∃ req st stream, σ.sub.get s = some req ∧ m' (req.path.drop len) = some st ∧
    τ.seats.sub s = some { req.seat with stream := some st } ∧ τ.stream.get st = some stream ∧
    stream.reqSubs.get req.reqNode = some s

section

variable {τ υ : Broker J} {d : DownId} {len : Nat} {done : List SubId} {s : SubId} {m m' : CString → Option StreamId}
  {l : List (CString × Nat)} {req : SubRequester J} {st : StreamId} {stream : BrokerSubStream J} {p : CString}

/-- A SubRequester for another path makes no difference. -/
theorem silent_snoc_other (hs : σ.sub.get s = some req) (hp : req.path.drop len ≠ p) :
    σ.Silent m len (done ++ [s]) p ↔ σ.Silent m len done p := by
  unfold Silent
  rw [firstWaiting_snoc hs, if_neg hp, Option.or_none]

/-- Nor does one for a path that has its stream already. -/
theorem Resolved.silent_snoc_known (h : σ.Resolved τ d len done m m' l) (hs : σ.sub.get s = some req)
    (hm' : m' p = some st) : σ.Silent m len (done ++ [s]) p ↔ σ.Silent m len done p := by
  unfold Silent
  rw [firstWaiting_snoc hs]
  cases hfirst : σ.firstWaiting len done p with
  | some r => rfl
  | none =>
    have hm : (m p).isSome := by
      have hkeys := (h.keys p).mp (by rw [hm']; rfl)
      rcases hkeys with hm | ⟨t, ht, r, hr, hrp⟩
      · exact hm
      · exact absurd hrp (firstWaiting_eq_none.mp hfirst t ht r hr)
    have hno : m p ≠ none := Option.isSome_iff_ne_none.mp hm
    exact iff_of_false (fun hsil => hno hsil.1) (fun hsil => hno hsil.1)

/-- Where the stream is new, the SubRequester decides alone. -/
theorem Resolved.silent_snoc_new (h : σ.Resolved τ d len done m m' l) (hs : σ.sub.get s = some req)
    (hp : req.path.drop len = p) (hm' : m' p = none) : σ.Silent m len (done ++ [s]) p ↔ req.qos = 255 := by
  have hkeys := mt (h.keys p).mpr (by rw [hm']; simp)
  obtain ⟨hm, hdone⟩ := not_or.mp hkeys
  have hm : m p = none := by simpa using hm
  have hfirst : σ.firstWaiting len done p = none :=
    firstWaiting_eq_none.mpr (fun t ht r hr hrp => hdone ⟨t, ht, r, hr, hrp⟩)
  unfold Silent
  rw [firstWaiting_snoc hs, hfirst, if_pos hp, Option.none_or]
  simp [hm]

/-- A stream is under the path that it has. -/
theorem path_of_live {f : CString → Option StreamId} {p' : CString} (hok : σ.SeatsOk) (hresp : σ.seats.resp d = some f)
    (hlive : σ.stream.get st = some stream) (hpath : stream.remotePath = some p) (hst : f p' = some st) : p' = p := by
  obtain ⟨x, hx, -, hpath'⟩ := hok.streams d f p' st hresp hst
  rw [seats_stream hlive] at hx
  cases hx
  have hsome : some p = some p' := hpath.symm.trans hpath'
  exact (Option.some.inj hsome).symm

/-- The keys of the table after one more SubRequester. -/
theorem Resolved.keys_snoc (h : σ.Resolved τ d len done m m' l) (hs : σ.sub.get s = some req)
    (hp : req.path.drop len = p) (p' : CString) : (Function.update m' p (some st) p').isSome ↔
      (m p').isSome ∨ ∃ t ∈ done ++ [s], ∃ r, σ.sub.get t = some r ∧ r.path.drop len = p' := by
  rw [Function.update_apply]
  by_cases hp' : p' = p
  · rw [if_pos hp']
    exact iff_of_true rfl (.inr ⟨s, by simp, req, hs, hp.trans hp'.symm⟩)
  · rw [if_neg hp', h.keys]
    apply or_congr_right
    constructor
    · rintro ⟨t, ht, hr⟩
      exact ⟨t, List.mem_append_left _ ht, hr⟩
    · rintro ⟨t, ht, r, hr, hrp⟩
      rcases List.mem_append.mp ht with ht | ht
      · exact ⟨t, ht, r, hr, hrp⟩
      · obtain rfl := List.mem_singleton.mp ht
        cases hs.symm.trans hr
        exact absurd (hrp.symm.trans hp) hp'

end

/-- One more SubRequester is placed. -/
theorem Resolved.round {τ υ : Broker J} {d : DownId} {len : Nat} {done : List SubId} {s : SubId}
    {m m' : CString → Option StreamId} {l : List (CString × Nat)} {req : SubRequester J}
    {st : StreamId} {stream : BrokerSubStream J} {old : Nat} (h : σ.Resolved τ d len done m m' l) (hqos : σ.QosOk)
    (hs : σ.sub.get s = some req) (hnew : s ∉ done)
    (hunique : ∀ t ∈ done, ∀ r, σ.sub.get t = some r → r.reqNode = req.reqNode → r.path.drop len ≠ req.path.drop len)
    {reqτ : SubRequester J} (hsτ : τ.sub.get s = some reqτ)
    (hrun : τ.brokerSubscribeRemote cfg d s (req.path.drop len) = some υ)
    (hround : τ.Round υ d s reqτ (req.path.drop len) m' l st stream old) :
    σ.Resolved υ d len (done ++ [s]) m (Function.update m' (req.path.drop len) (some st))
      (l ++ if stream.respQos = old then [] else [(req.path.drop len, stream.respSid)]) := by
  have hframe : Frame attachParts σ υ := h.frame.trans (Frame.brokerSubscribeRemote hrun)
  have hok := hround.seating.ok
  have hseat : reqτ.seat = req.seat := by
    have hsame := h.todo s hnew
    rw [seats_sub hsτ, seats_sub hs] at hsame
    exact Option.some.inj hsame
  have hnode : reqτ.reqNode = req.reqNode := congrArg Seat.reqNode hseat
  have hτqos : ∀ t r, τ.sub.get t = some r → ∃ r', σ.sub.get t = some r' ∧ r.qos = r'.qos :=
    fun t r ht => h.frame.sub_rev (p := .qos) (by decide) (by simp) ht
  have hqosτ : ∀ t r, σ.sub.get t = some r → ∃ r', τ.sub.get t = some r' ∧ r'.qos = r.qos :=
    fun t r ht => h.frame.sub (p := .qos) (by decide) (by simp) ht
  have hle : stream.respQos ≤ 255 := by
    rcases hround.qosMax with h0 | ⟨e, t, r, -, hr, hq⟩
    · omega
    · obtain ⟨r', hr', hq'⟩ := hτqos t r hr
      rw [← hq, hq']
      exact hqos t r' hr'
  have hresp : υ.seats.resp d = some (Function.update m' (req.path.drop len) (some st)) := by
    rw [hround.resp, Function.update_self]
  generalize hp : req.path.drop len = p at *
  refine ⟨hframe, hok, hround.seating.waiting.trans h.waiting, ?_, hresp, ?_, ?_, ?_, ?_, ?_⟩
  · intro t ht
    obtain ⟨hdone, hts⟩ := not_or.mp (mt List.mem_append.mpr ht)
    rw [hround.seating.others t (by simpa using hts), h.todo t hdone]
  · rw [hround.requests, Function.update_self]
  · exact h.keys_snoc hs hp
  · intro p' sid hmem
    rw [Function.update_apply]
    split
    · rfl
    · rename_i hp'
      rcases List.mem_append.mp hmem with hmem | hmem
      · exact h.known p' sid hmem
      · split at hmem
        · cases hmem
        · exact absurd (congrArg Prod.fst (List.mem_singleton.mp hmem)) hp'
  · intro p' st' hst'
    rw [Function.update_apply] at hst'
    split at hst'
    · -- the path of `s`
      rename_i hp'
      subst hp'
      cases hst'
      refine ⟨stream, hround.live, ?_⟩
      rcases hround.found with ⟨hm', stream0, hstream0, hold⟩ | ⟨hm', -, hold⟩
      · -- the stream was there: the request was sent already, or it is not sent now either
        obtain ⟨stream0', hstream0', hasked, hsilent⟩ := h.asked p' st hm'
        cases hstream0.symm.trans hstream0'
        obtain ⟨stream1, hstream1, hsid, -, hkeep⟩ := hround.keeps st stream0 hstream0
        cases hround.live.symm.trans hstream1
        rw [h.silent_snoc_known hs hm', hsid]
        by_cases hsil : σ.Silent m len done p'
        · obtain ⟨h255, t, ht, r, hr, hrp, hseat', hrq⟩ := hsilent hsil
          have hother : r.reqNode ≠ reqτ.reqNode := by
            intro he
            exact hunique t ht r hr (he.trans hnode) hrp
          have hentry := hkeep r.reqNode t (fun hc => hother hc.2) hseat'
          obtain ⟨r', hr', hrq'⟩ := hqosτ t r hr
          have hge := hround.qosLe r.reqNode t hentry r' hr'
          have hqos' : stream.respQos = 255 := by omega
          refine ⟨iff_of_false ?_ (fun hc => hc hsil), fun _ => ?_⟩
          swap
          · exact ⟨hqos', t, List.mem_append_left _ ht, r, hr, hrp, hentry, hrq⟩
          rw [if_pos (by omega), List.append_nil]
          exact fun hc => hasked.mp hc hsil
        · exact ⟨iff_of_true (List.mem_append_left _ (hasked.mpr hsil)) hsil, fun hc => absurd hc hsil⟩
      · -- the stream is new: `s` alone decides its qos
        have hqos' : stream.respQos = req.qos := by
          obtain ⟨r', hr', hrq'⟩ := hqosτ s req hs
          have hge := hround.qosLe reqτ.reqNode s hround.seat r' hr'
          rcases hround.qosMax with h0 | ⟨e, t, r, ht, hr, hq⟩
          · omega
          · obtain rfl := hround.alone hm' e t ht
            cases hr.symm.trans hr'
            omega
        have hfresh : (p', stream.respSid) ∉ l := by
          intro hmem
          have hsome := h.known p' _ hmem
          rw [hm'] at hsome
          cases hsome
        rw [h.silent_snoc_new hs hp hm', hold, hqos']
        refine ⟨?_, fun h255 => ⟨h255, s, by simp, req, hs, hp, ?_, h255⟩⟩
        · by_cases h255 : req.qos = 255
          · rw [if_pos h255, List.append_nil]
            exact iff_of_false hfresh (fun hc => hc h255)
          · rw [if_neg h255]
            exact iff_of_true (List.mem_append_right _ (List.mem_singleton.mpr rfl)) h255
        · rw [← hnode]
          exact hround.seat
    · -- another path
      rename_i hp'
      obtain ⟨stream', hstream', hasked, hsilent⟩ := h.asked p' st' hst'
      obtain ⟨stream1, hstream1, hsid, hsame, -⟩ := hround.keeps st' stream' hstream'
      have hne : st' ≠ st := by
        rintro rfl
        exact hp' (path_of_live hok hresp hround.live hround.remotePath (by rw [Function.update_of_ne hp']; exact hst'))
      obtain rfl := hsame hne
      rw [silent_snoc_other hs (fun he => hp' (he.symm.trans hp))]
      refine ⟨stream1, hstream1, ?_, ?_⟩
      · rw [← hasked, List.mem_append]
        apply or_iff_left
        intro hmem
        split at hmem
        · cases hmem
        · exact hp' (congrArg Prod.fst (List.mem_singleton.mp hmem))
      · intro hsilp
        obtain ⟨h255, t, ht, r⟩ := hsilent hsilp
        exact ⟨h255, t, List.mem_append_left _ ht, r⟩
  · intro t ht
    rcases List.mem_append.mp ht with hdone | hlast
    · obtain ⟨r, st', stream', hr, hst', hsub, hlive, hseat'⟩ := h.attached t hdone
      have hts : t ≠ s := by
        rintro rfl
        exact hnew hdone
      obtain ⟨stream1, hstream1, hsid, hsame, hkeep⟩ := hround.keeps st' stream' hlive
      refine ⟨r, st', stream1, hr, ?_, ?_, hstream1, ?_⟩
      · rw [Function.update_apply]
        split
        · rename_i hrp
          rw [hrp] at hst'
          rcases hround.found with ⟨hm', -⟩ | ⟨hm', -⟩
          · rw [← hm', hst']
          · rw [hm'] at hst'
            cases hst'
        · exact hst'
      · rw [hround.seating.others t hts, hsub]
      · apply hkeep _ _ _ hseat'
        rintro ⟨rfl, he⟩
        -- one requester would have two paths for one remote path
        have hrp : r.path.drop len = p := by
          by_contra hne
          exact hne (path_of_live hok hresp hround.live hround.remotePath
            (by rw [Function.update_of_ne hne]; exact hst'))
        exact hunique t hdone r hr (he.trans hnode) hrp
    · obtain rfl := List.mem_singleton.mp hlast
      refine ⟨req, st, stream, hs, by rw [hp, Function.update_self], ?_, hround.live, ?_⟩
      · rw [hround.sub, hseat]
      · rw [← hnode]
        exact hround.seat

theorem Unplaced.of_seats {s : SubId} (h : σ.Unplaced s) (hsub : σ'.seats.sub s = σ.seats.sub s)
    (hw : σ'.pendingList = σ.pendingList) : σ'.Unplaced s := by
  obtain ⟨req, hreq, hstream, hnot⟩ := h
  have hk := hsub.trans (seats_sub hreq)
  obtain ⟨req', hreq', hseat⟩ := seats_sub_eq_some.mp hk
  refine ⟨req', hreq', (congrArg Seat.stream hseat).trans hstream, ?_⟩
  rw [hw]
  exact hnot

/-- The rest of the loop from a state in which `done` is placed. The induction is on what is left. -/
theorem attachPending_resolved {d : DownId} {len : Nat} {m : CString → Option StreamId} (hhomes : σ.Homes)
    (hqos : σ.QosOk) {todo : List SubId} : ∀ {τ : Broker J} {done : List SubId} {m' : CString → Option StreamId}
    {l : List (CString × Nat)}, σ.Resolved τ d len done m m' l → (done ++ todo).Nodup →
    (∀ s ∈ done ++ todo, σ.Unplaced s) →
    (∀ s ∈ done ++ todo, ∀ t ∈ done ++ todo, ∀ req r, σ.sub.get s = some req → σ.sub.get t = some r →
      r.reqNode = req.reqNode → r.path.drop len = req.path.drop len → t = s) →
    ∃ υ m'' l', τ.attachPending cfg d len todo = some υ ∧ σ.Resolved υ d len (done ++ todo) m m'' l' := by
  induction todo with
  | nil =>
    intro τ done m' l h _ _ _
    exact ⟨τ, m', l, rfl, by rw [List.append_nil]; exact h⟩
  | cons s todo ih =>
    intro τ done m' l h hnodup hunplaced hunique
    have hmem : s ∈ done ++ s :: todo := by simp
    have hnew : s ∉ done := by
      intro hdone
      exact (List.nodup_append.mp hnodup).2.2 s hdone s List.mem_cons_self rfl
    obtain ⟨req, hreq, -⟩ := hunplaced s hmem
    have hτ : τ.Unplaced s := (hunplaced s hmem).of_seats (h.todo s hnew) h.waiting
    obtain ⟨reqτ, hreqτ, -⟩ := id hτ
    have hseat : reqτ.seat = req.seat := by
      have hsame := h.todo s hnew
      rw [seats_sub hreqτ, seats_sub hreq] at hsame
      exact Option.some.inj hsame
    obtain ⟨node, hd, rfl⟩ := Option.map_eq_some_iff.mp h.resp
    obtain ⟨υ, st, stream, old, hrun, hround⟩ := @brokerSubscribeRemote_round J cfg _ _ _ _ _ _ h.ok
      (hhomes.frame h.frame (by decide) (by decide)) hτ hreqτ hd h.requests (req.path.drop len)
    have hnext := h.round hqos hreq hnew (fun t ht r hr hn hp => by
      obtain rfl := hunique s hmem t (List.mem_append_left _ ht) req r hreq hr hn hp
      exact hnew ht) hreqτ hrun hround
    have hsplit : done ++ s :: todo = done ++ [s] ++ todo := by simp
    rw [hsplit] at hnodup hunplaced hunique ⊢
    obtain ⟨φ, m'', l', hφ, hres⟩ := ih hnext hnodup hunplaced hunique
    refine ⟨φ, m'', l', ?_, hres⟩
    have hpath : reqτ.path.drop len = req.path.drop len := congrArg (List.drop len) (congrArg Seat.path hseat)
    simp only [attachPending, List.foldlM_cons, hreqτ, Option.bind_eq_bind, Option.bind_some, hpath, hrun]
    exact hφ

/-! ## The whole function -/

/-- Every stream of a list gets its request. -/
theorem resendSubscriptions_spec {d : DownId} {streams : List StreamId} : ∀ {σ : Broker J} {l : List (CString × Nat)},
    σ.requests d = some (some l) → (∀ st ∈ streams, ∃ stream, σ.stream.get st = some stream) →
    ∃ τ l', σ.resendSubscriptions d streams = some τ ∧ (τ.stream = σ.stream ∧ τ.sub = σ.sub) ∧ Frame [.resp, .link] σ τ ∧
      τ.requests d = some (some (l ++ l')) ∧ ∀ x, x ∈ l' ↔ ∃ st ∈ streams, ∃ stream, σ.stream.get st = some stream ∧
        x = (stream.remotePath.getD [], stream.respSid) := by
  induction streams with
  | nil =>
    intro σ l hl _
    exact ⟨σ, [], rfl, ⟨rfl, rfl⟩, .refl _ _, by rw [List.append_nil]; exact hl, by simp⟩
  | cons st streams ih =>
    intro σ l hl hlive
    obtain ⟨stream, hst⟩ := hlive st List.mem_cons_self
    obtain ⟨τ, hτ, hreq⟩ := sendSubscribeRequest_total hl (stream.remotePath.getD []) stream.respSid stream.respQos
    obtain ⟨hkeep, hsub⟩ : τ.stream = σ.stream ∧ τ.sub = σ.sub := by
      simp only [sendSubscribeRequest, Option.bind_eq_bind, Option.bind_eq_some_iff] at hτ
      obtain ⟨-, -, node', -, hτ⟩ := hτ
      cases hτ
      exact ⟨rfl, rfl⟩
    obtain ⟨υ, l', hυ, ⟨hυstream, hυsub⟩, hf, hυreq, hmem⟩ := ih (σ := τ) (l := l ++ [(stream.remotePath.getD [], stream.respSid)])
      (by rw [hreq, Function.update_self]) (fun t ht => by rw [hkeep]; exact hlive t (List.mem_cons_of_mem _ ht))
    refine ⟨υ, (stream.remotePath.getD [], stream.respSid) :: l', ?_, ⟨hυstream.trans hkeep, hυsub.trans hsub⟩,
      (Frame.sendSubscribeRequest hτ).trans hf, by rw [hυreq, List.append_assoc]; rfl, ?_⟩
    · simp only [resendSubscriptions, List.foldlM_cons, hst, Option.bind_eq_bind, Option.bind_some, hτ]
      exact hυ
    · intro x
      rw [List.mem_cons, hmem, hkeep]
      constructor
      · rintro (rfl | ⟨t, ht, stream', hst', rfl⟩)
        · exact ⟨st, List.mem_cons_self, stream, hst, rfl⟩
        · exact ⟨t, List.mem_cons_of_mem _ ht, stream', hst', rfl⟩
      · rintro ⟨t, ht, stream', hst', rfl⟩
        rcases List.mem_cons.mp ht with rfl | ht
        · cases hst.symm.trans hst'
          exact .inl rfl
        · exact .inr ⟨t, ht, stream', hst', rfl⟩

/-- The SubRequesters of a freed list forget it; nothing else changes. -/
theorem subsListFree_spec (σ : Broker J) (subs : List SubId) :
    (∀ t, (σ.subsListFree subs).sub.get t = if t ∈ subs then (σ.sub.get t).map (fun req => { req with pendingNode := none })
      else σ.sub.get t) ∧
    (σ.subsListFree subs).stream = σ.stream ∧ (σ.subsListFree subs).dnode = σ.dnode ∧
    (σ.subsListFree subs).pendingList = σ.pendingList := by
  induction subs generalizing σ with
  | nil => exact ⟨fun _ => rfl, rfl, rfl, rfl⟩
  | cons s subs ih =>
    obtain ⟨hsub, hstream, hdnode, hw⟩ := ih (σ.modSub s (fun req => { req with pendingNode := none }))
    refine ⟨?_, hstream, hdnode, hw⟩
    intro t
    show (subsListFree _ subs).sub.get t = _
    rw [hsub]
    have hget : (σ.modSub s (fun req => { req with pendingNode := none })).sub.get t =
        if t = s then (σ.sub.get t).map (fun req => { req with pendingNode := none }) else σ.sub.get t := by
      show (σ.sub.modify s _).get t = _
      rw [Heap.get_modify]
      split
      · rename_i he
        rw [he]
      · rfl
    rw [hget]
    by_cases hts : t = s
    · rw [if_pos hts, if_pos (List.mem_cons.mpr (.inl hts))]
      split
      · rw [Option.map_map]
        rfl
      · rfl
    · rw [if_neg hts]
      by_cases ht : t ∈ subs
      · rw [if_pos ht, if_pos (List.mem_cons_of_mem _ ht)]
      · rw [if_neg ht, if_neg (by simp [hts, ht])]

/-- Connecting `d` resolved what waited for it: every waiting SubRequester sits in the stream of its remote path and
    waits nowhere, and every stream of the link has its request on the wire. -/
structure ConnectResolves (σ σ' : Broker J) (d : DownId) (node : DownstreamNode J) : Prop where
  attached : ∀ s ∈ σ.pendingList (.remotePendingSub node.path), ∃ req req' st stream rest,
    σ.sub.get s = some req ∧ req.path = node.path ++ rest ∧ σ'.sub.get s = some req' ∧ req'.stream = some st ∧
      σ'.stream.get st = some stream ∧ stream.respNode = .downstream d ∧ stream.remotePath = some rest ∧
      stream.reqSubs.get req.reqNode = some s
  pending : ∀ s ∈ σ.pendingList (.remotePendingSub node.path),
    (∀ req', σ'.sub.get s = some req' → req'.pendingNode = none) ∧ ∀ key, s ∉ σ'.pendingList key
  requested : ∃ node' link, σ'.dnode.get d = some node' ∧ node'.link = some link ∧
    ∀ path st, node'.respSubStreams.get path = some st → ∃ stream, σ'.stream.get st = some stream ∧
      stream.remotePath = some path ∧ (path, stream.respSid) ∈ link.requests

/-- The path of the new link is set or nothing waits for it, and no new stream starts with the qos that a stream has
    before its first request. -/
def ConnectClean (σ : Broker J) (node : DownstreamNode J) : Prop :=
  (node.parent = some σ.downstream ∨ σ.remotePendingSub.get node.path = none) ∧
    ∀ p, ¬σ.Silent node.respSubStreams.get node.path.length (σ.pendingList (.remotePendingSub node.path)) p

/-- The start of the function: the link is there and every stream it had is requested on it. -/
theorem connect_open {d : DownId} {node : DownstreamNode J} (h : σ.SeatsOk) (hd : σ.dnode.get d = some node) :
    let σ0 := σ.modDnode d (fun node' => { node' with link := some ⟨σ.linkPath node, 0, []⟩ })
    ∃ τ l, σ0.resendSubscriptions d node.respSubStreams.values = some τ ∧ τ.sub = σ.sub ∧ τ.stream = σ.stream ∧
      τ.seats = σ.seats ∧ Frame [.link, .wire, .resp] σ τ ∧ τ.requests d = some (some l) ∧
      (∀ p sid, (p, sid) ∈ l → (node.respSubStreams.get p).isSome) ∧
      ∀ p st, node.respSubStreams.get p = some st → ∃ stream, σ.stream.get st = some stream ∧
        stream.remotePath = some p ∧ (p, stream.respSid) ∈ l := by
  intro σ0
  have hresp : σ.seats.resp d = some node.respSubStreams.get := by simp [seats, hd]
  have hstreams : ∀ p st, node.respSubStreams.get p = some st → ∃ stream, σ.stream.get st = some stream ∧
      stream.remotePath = some p := by
    intro p st hst
    obtain ⟨x, hx, -, hpath⟩ := h.streams d _ p st hresp hst
    obtain ⟨stream, hstream, rfl⟩ := seats_stream_eq_some.mp hx
    exact ⟨stream, hstream, hpath⟩
  have hreq0 : σ0.requests d = some (some []) := by
    have hupdate : σ0.requests = Function.update σ.requests d (some (some [])) :=
      requests_modDnode (fun _ _ => rfl) (by rw [hd]; rfl)
    rw [hupdate, Function.update_self]
  obtain ⟨τ, l, hτ, ⟨hstream, hsub⟩, hf, hreq, hmem⟩ := resendSubscriptions_spec hreq0
    (fun st hst => by
      obtain ⟨p, hp⟩ := (AssocMap.mem_values (m := node.respSubStreams)).mp hst
      obtain ⟨stream, hs, -⟩ := hstreams p st hp
      exact ⟨stream, hs⟩)
  have hopen : Frame [.link, .wire] σ σ0 := by
    apply Frame.modDnode
    intro p hp n _
    cases p <;> simp_all [DownstreamNode.Agree]
  have hseats : τ.seats = σ.seats := (resendSubscriptions_seats hτ).trans (seats_modDnode_same (fun _ _ => rfl))
  refine ⟨τ, l, hτ, hsub, hstream, hseats, (hopen.mono (by decide)).trans (hf.mono (by decide)), hreq, ?_, ?_⟩
  · intro p sid hp
    obtain ⟨st, hst, stream, hs, he⟩ := (hmem _).mp hp
    obtain ⟨p', hp'⟩ := AssocMap.mem_values.mp hst
    obtain ⟨stream', hs', hpath⟩ := hstreams p' st hp'
    cases (show σ.stream.get st = some stream from hs).symm.trans hs'
    obtain ⟨rfl, -⟩ := Prod.mk.inj he
    rw [hpath, Option.getD_some, hp']
    rfl
  · intro p st hst
    obtain ⟨stream, hs, hpath⟩ := hstreams p st hst
    refine ⟨stream, hs, hpath, (hmem _).mpr ⟨st, AssocMap.mem_values.mpr ⟨p, hst⟩, stream, hs, ?_⟩⟩
    rw [hpath]
    rfl

/-- What waits for a link has a path below it, and no two SubRequesters of a requester have the same. -/
theorem waiting_paths (key : CString) (h : σ.SeatsOk) (hpaths : σ.indexes.PathsOk) :
    (∀ s ∈ σ.pendingList (.remotePendingSub key), ∃ req, σ.sub.get s = some req ∧
      req.path = key ++ req.path.drop key.length) ∧
    ∀ s ∈ σ.pendingList (.remotePendingSub key), ∀ t ∈ σ.pendingList (.remotePendingSub key), ∀ req r,
      σ.sub.get s = some req → σ.sub.get t = some r → r.reqNode = req.reqNode →
      r.path.drop key.length = req.path.drop key.length → t = s := by
  have hstart : ∀ s ∈ σ.pendingList (.remotePendingSub key), ∃ req, σ.sub.get s = some req ∧
      req.path = key ++ req.path.drop key.length := by
    intro s hs
    obtain ⟨k, hk, -, -, rest, hfits⟩ := h.waits (.remotePendingSub key) s hs
    obtain ⟨req, hreq, rfl⟩ := seats_sub_eq_some.mp hk
    refine ⟨req, hreq, ?_⟩
    have hpath : req.path = key ++ slash :: rest := hfits
    rw [hpath, List.drop_left']
    rfl
  refine ⟨hstart, ?_⟩
  intro s hs t ht req r hreq hr hnode hdrop
  obtain ⟨req', hreq', hp⟩ := hstart s hs
  obtain ⟨r', hr', hp'⟩ := hstart t ht
  cases hreq.symm.trans hreq'
  cases hr.symm.trans hr'
  apply hpaths.unique (indexes_sub hr) (indexes_sub hreq) hnode
  show r.path = req.path
  rw [hp, hp', hdrop]

/-- With a path for the new link the whole list is placed. -/
theorem connect_list {d : DownId} {node : DownstreamNode J} {subs : List SubId} (h : σ.SeatsOk)
    (hpaths : σ.indexes.PathsOk) (hqos : σ.QosOk) (hd : σ.dnode.get d = some node)
    (hparent : node.parent = some σ.downstream) (hsubs : σ.remotePendingSub.get node.path = some subs) :
    ∃ (τ φ : Broker J) (m' : CString → Option StreamId) (l : List (CString × Nat)),
      σ.brokerDslinkConnect cfg d = some (φ.subsListFree subs) ∧ τ.sub = σ.sub ∧
      τ.Resolved φ d node.path.length subs node.respSubStreams.get m' l ∧
      ∀ s ∈ subs, ∀ key, s ∉ φ.pendingList key := by
  obtain ⟨τ, l, hτ, hsub, hstream, hseats, hf, hreq, hknown, hasked⟩ := connect_open h hd
  have hlist : σ.pendingList (.remotePendingSub node.path) = subs := by simp [pendingList, hsubs]
  have hpend : τ.remotePendingSub = σ.remotePendingSub :=
    (show Same .pending σ τ from hf .pending (by decide)).2
  set ρ : Broker J := { τ with remotePendingSub := τ.remotePendingSub.erase node.path } with hρ
  have hρseats : ρ.seats = σ.seats.setWaiting (.remotePendingSub node.path) [] := by
    rw [hρ, dropRemote_seats, hseats]
  have hρok : ρ.SeatsOk := by
    rw [SeatsOk, hρseats]
    exact h.thin (List.nil_sublist _)
  have hunplaced : ∀ s ∈ subs, ρ.Unplaced s := by
    intro s hs
    exact unplaced_of_dropped (.remotePendingSub node.path) h (by rw [hlist]; exact hs) hρseats
  have hstart : ρ.Resolved ρ d node.path.length [] node.respSubStreams.get node.respSubStreams.get l := {
    frame := .refl _ _
    ok := hρok
    waiting := rfl
    todo := fun _ _ => rfl
    resp := by
      rw [hρseats]
      show (σ.dnode.get d).map _ = _
      rw [hd]
      rfl
    requests := hreq
    keys := by simp
    known := hknown
    asked := by
      intro p st hst
      obtain ⟨stream, hs, -, hmem⟩ := hasked p st hst
      have hnot : ¬ρ.Silent node.respSubStreams.get node.path.length [] p := by
        rintro ⟨-, req, hreq, -⟩
        cases hreq
      refine ⟨stream, ?_, iff_of_true hmem hnot, fun hc => absurd hc hnot⟩
      show τ.stream.get st = some stream
      rw [hstream]
      exact hs
    attached := by simp }
  have hhomes : τ.Homes := (Homes.of_paths hpaths).frame hf (by decide) (by decide)
  have hτqos : τ.QosOk := hqos.frame hf (by decide)
  obtain ⟨-, hunique⟩ := waiting_paths node.path h hpaths
  obtain ⟨φ, m', l', hφ, hres⟩ := @attachPending_resolved J cfg ρ d node.path.length node.respSubStreams.get hhomes hτqos subs
    _ _ _ _ hstart
    (by rw [List.nil_append, ← hlist]; exact h.nodup (.remotePendingSub node.path)) (by simpa using hunplaced) (by
      intro s hs t ht req r hreq hr
      have hreq : τ.sub.get s = some req := hreq
      have hr : τ.sub.get t = some r := hr
      rw [hsub] at hreq hr
      rw [List.nil_append, ← hlist] at hs ht
      exact hunique s hs t ht req r hreq hr)
  refine ⟨ρ, φ, m', l', ?_, hsub, hres, ?_⟩
  · simp only [brokerDslinkConnect, hd, Option.bind_eq_bind, Option.bind_some, hτ, hpend, hsubs]
    rw [hpend] at hρ
    have hlen : (σ.linkPath node).map List.length = some node.path.length := by
      simp [linkPath, hparent]
    rw [hlen, Option.bind_some, ← hρ, hφ]
    rfl
  · intro s hs key
    rw [hres.waiting]
    obtain ⟨req, -, -, hnot⟩ := hunplaced s hs
    exact hnot key

theorem firstWaiting_congr {len : Nat} {subs : List SubId} {p : CString} (hsub : σ'.sub = σ.sub) :
    σ'.firstWaiting len subs p = σ.firstWaiting len subs p := by
  unfold firstWaiting
  rw [hsub]

theorem silent_congr {m : CString → Option StreamId} {len : Nat} {subs : List SubId} {p : CString}
    (hsub : σ'.sub = σ.sub) : σ'.Silent m len subs p ↔ σ.Silent m len subs p := by
  unfold Silent
  rw [firstWaiting_congr hsub]

/-- Connecting a downstream or upstream node without a link returns and resolves everything that waits for it exactly
    if the new link has a path or nothing waits, and every new stream sends its request. -/
theorem connect_exact {ok : Broker J → Event J → Prop} {d : DownId} {node : DownstreamNode J}
    (hreach : Reach (step cfg) ok (fun σ => brokerInit = some σ) σ) (hd : σ.dnode.get d = some node)
    (hlink : node.link = none) :
    (∃ σ', step cfg σ (.connect d) = some σ' ∧ σ.ConnectResolves σ' d node) ↔ σ.ConnectClean node := by
  have h := reach_seats hreach
  have hpaths := reach_paths hreach
  have hstep : step cfg σ (.connect d) = σ.brokerDslinkConnect cfg d := by
    simp [step, hd, hlink]
  rw [hstep]
  cases hsubs : σ.remotePendingSub.get node.path with
  | none =>
    -- nothing waits: the streams of the link are requested, and that is all
    have hlist : σ.pendingList (.remotePendingSub node.path) = [] := by simp [pendingList, hsubs]
    obtain ⟨τ, l, hτ, hsub, hstream, hseats, hf, hreq, hknown, hasked⟩ := connect_open h hd
    have hpend : τ.remotePendingSub = σ.remotePendingSub :=
      (show Same .pending σ τ from hf .pending (by decide)).2
    refine iff_of_true ⟨τ, ?_, ?_⟩ ⟨.inr hsubs, ?_⟩
    · simp only [brokerDslinkConnect, hd, Option.bind_eq_bind, Option.bind_some, hτ, hpend, hsubs]
    · refine ⟨by simp [hlist], by simp [hlist], ?_⟩
      obtain ⟨node', link, hd', hlink', rfl⟩ := requests_eq_some.mp hreq
      refine ⟨node', link, hd', hlink', ?_⟩
      intro path st hst
      have hresp : some node'.respSubStreams.get = some node.respSubStreams.get := by
        have hresp := congrFun (congrArg Seats.resp hseats) d
        simpa [seats, hd, hd'] using hresp
      rw [Option.some.inj hresp] at hst
      obtain ⟨stream, hs, hpath, hmem⟩ := hasked path st hst
      exact ⟨stream, by rw [hstream]; exact hs, hpath, hmem⟩
    · rintro p ⟨-, req, hreq, -⟩
      rw [hlist] at hreq
      cases hreq
  | some subs =>
    have hlist : σ.pendingList (.remotePendingSub node.path) = subs := by simp [pendingList, hsubs]
    by_cases hparent : node.parent = some σ.downstream
    · obtain ⟨τ, φ, m', l, hrun, hsub, hres, hnot⟩ := @connect_list J cfg _ _ _ _ h hpaths (reach_qos hreach) hd
        hparent hsubs
      obtain ⟨hfree, hfstream, hfdnode, hfw⟩ := subsListFree_spec φ subs
      obtain ⟨node', link, hd', hlink', hl⟩ := requests_eq_some.mp hres.requests
      obtain ⟨hstart, -⟩ := waiting_paths node.path h hpaths
      have hresp : node'.respSubStreams.get = m' := by
        have hresp := hres.resp
        simpa [seats, hd'] using hresp
      constructor
      · rintro ⟨σ', hσ', hall⟩
        refine ⟨.inl hparent, fun p hsil => ?_⟩
        rw [hlist] at hsil
        rw [hrun] at hσ'
        cases hσ'
        -- the stream for `p` is there and was not requested
        obtain ⟨hnone, req, hfirst, hq⟩ := id hsil
        have hsil : τ.Silent node.respSubStreams.get node.path.length subs p := (silent_congr hsub).mpr hsil
        obtain ⟨s, hs, hreq, hp⟩ : ∃ s ∈ subs, σ.sub.get s = some req ∧ req.path.drop node.path.length = p := by
          obtain ⟨s, hs, hreq⟩ := List.mem_filterMap.mp (List.mem_of_find?_eq_some hfirst)
          exact ⟨s, hs, hreq, by simpa using List.find?_some hfirst⟩
        obtain ⟨st, hst⟩ := Option.isSome_iff_exists.mp
          ((hres.keys p).mpr (.inr ⟨s, hs, req, by rw [hsub]; exact hreq, hp⟩))
        obtain ⟨stream, hstream, hasked, -⟩ := hres.asked p st hst
        obtain ⟨node'', link', hd'', hlink'', hrequested⟩ := hall.requested
        rw [hfdnode, hd'] at hd''
        cases hd''
        rw [hlink'] at hlink''
        cases hlink''
        obtain ⟨stream', hstream', -, hmem⟩ := hrequested p st (by rw [hresp]; exact hst)
        rw [hfstream, hstream] at hstream'
        cases hstream'
        rw [hl] at hmem
        exact hasked.mp hmem hsil
      · rintro ⟨-, hclean⟩
        refine ⟨φ.subsListFree subs, hrun, ?_, ?_, node', link, by rw [hfdnode]; exact hd', hlink', ?_⟩
        · -- who waited has its stream
          intro s hs
          obtain ⟨req, hreq, hpath⟩ := hstart s hs
          rw [hlist] at hs
          obtain ⟨req', st, stream, hreq', hst, hseat, hstream, hmine⟩ := hres.attached s hs
          rw [hsub] at hreq'
          cases hreq.symm.trans hreq'
          obtain ⟨reqφ, hreqφ, hseatφ⟩ := seats_sub_eq_some.mp hseat
          obtain ⟨x, hx, hnode, hremote⟩ := hres.ok.streams d m' _ st hres.resp hst
          rw [seats_stream hstream] at hx
          cases hx
          refine ⟨req, { reqφ with pendingNode := none }, st, stream, _, hreq, hpath, ?_, ?_, ?_, hnode, hremote, hmine⟩
          · rw [hfree, if_pos hs, hreqφ]
            rfl
          · exact congrArg Seat.stream hseatφ
          · rw [hfstream]
            exact hstream
        · -- and does not wait any more
          intro s hs
          rw [hlist] at hs
          refine ⟨?_, by rw [hfw]; exact hnot s hs⟩
          intro req' hreq'
          rw [hfree, if_pos hs] at hreq'
          obtain ⟨r, -, rfl⟩ := Option.map_eq_some_iff.mp hreq'
          rfl
        · -- every stream was requested
          intro path st hst
          rw [hresp] at hst
          obtain ⟨stream, hstream, hasked, -⟩ := hres.asked path st hst
          obtain ⟨x, hx, -, hremote⟩ := hres.ok.streams d m' path st hres.resp hst
          rw [seats_stream hstream] at hx
          cases hx
          refine ⟨stream, by rw [hfstream]; exact hstream, hremote, ?_⟩
          rw [hl]
          apply hasked.mpr
          intro hsil
          exact hclean path (by rw [hlist]; exact (silent_congr hsub).mp hsil)
    · -- `strlen` goes through the path of the link, which is NULL
      apply iff_of_false
      · rintro ⟨σ', hσ', -⟩
        obtain ⟨τ, l, hτ, -, -, -, hf, -⟩ := connect_open h hd
        have hpend : τ.remotePendingSub = σ.remotePendingSub :=
          (show Same .pending σ τ from hf .pending (by decide)).2
        simp only [brokerDslinkConnect, hd, Option.bind_eq_bind, Option.bind_some, hτ, hpend, hsubs] at hσ'
        have hpath : σ.linkPath node = none := by simp [linkPath, hparent]
        rw [hpath] at hσ'
        cases hσ'
      · rintro ⟨hcon | hcon, -⟩
        · exact hparent hcon
        · rw [hsubs] at hcon
          cases hcon

theorem connect_exact_waiting : ∃ (σ : Broker Nat) (node : DownstreamNode Nat),
    σ.pendingList (.remotePendingSub node.path) = [0] ∧
      ∃ σ', step smallConfig σ (.connect 1) = some σ' ∧ σ.ConnectResolves σ' 1 node := by
  obtain ⟨σ, hreach, hcheck⟩ := Reach.of_eval (step smallConfig) (brokerInit (J := Nat))
    [.initDownstream (cstr "r"), .connect 0, .subscribe 0 (readEntry "/downstream/x/a" 1 2) 0,
      .initDownstream (cstr "x")]
    (fun σ => (σ.dnode.get 1).any (fun node => node.link.isNone ∧ node.parent = some σ.downstream ∧
        σ.pendingList (.remotePendingSub node.path) = [0]) ∧
      (σ.sub.get 0).all (fun req => req.qos ≠ 255)) (by decide)
  simp only [Bool.decide_and, Bool.and_eq_true, Bool.decide_eq_true] at hcheck
  obtain ⟨hnode, hqos⟩ := hcheck
  obtain ⟨node, hd, hnode⟩ := (Option.any_eq_true _ _).mp hnode
  simp only [Bool.and_eq_true, decide_eq_true_eq, Option.isNone_iff_eq_none] at hnode
  obtain ⟨hlink, hparent, hlist⟩ := hnode
  refine ⟨σ, node, hlist, (connect_exact hreach hd hlink).mpr ⟨.inl hparent, ?_⟩⟩
  rintro p ⟨-, req, hfirst, h255⟩
  obtain ⟨s, hs, hreq⟩ := List.mem_filterMap.mp (List.mem_of_find?_eq_some hfirst)
  rw [hlist] at hs
  obtain rfl := List.mem_singleton.mp hs
  rw [hreq] at hqos
  simp [h255] at hqos

/-- An upstream broker that something waits for: its link has no path. And a subscription with qos 255, for which
    the new link gets no request. -/
theorem connect_not_exact :
    (∃ (σ : Broker Nat) (node : DownstreamNode Nat),
      Reach (step smallConfig) (fun _ _ => True) (fun σ => brokerInit = some σ) σ ∧
      σ.dnode.get 1 = some node ∧ node.link = none ∧ step smallConfig σ (.connect 1) = none) ∧
    ∃ (σ σ' : Broker Nat) (node : DownstreamNode Nat),
      Reach (step smallConfig) (fun _ _ => True) (fun σ => brokerInit = some σ) σ ∧
      σ.dnode.get 1 = some node ∧ node.link = none ∧ step smallConfig σ (.connect 1) = some σ' ∧
      ¬σ.ConnectResolves σ' 1 node := by
  constructor
  · obtain ⟨σ, hreach, hcheck⟩ := Reach.of_eval (step smallConfig) (brokerInit (J := Nat))
      [.initDownstream (cstr "r"), .connect 0, .subscribe 0 (readEntry "/upstream/u/a" 1 0) 0,
        .initUpstream (cstr "u")]
      (fun σ => (σ.dnode.get 1).any (fun node => node.link.isNone) ∧ (step smallConfig σ (.connect 1)).isNone)
      (by decide)
    simp only [Bool.decide_and, Bool.and_eq_true, decide_eq_true_eq, Option.isNone_iff_eq_none] at hcheck
    obtain ⟨hnode, hnone⟩ := hcheck
    obtain ⟨node, hd, hlink⟩ := (Option.any_eq_true _ _).mp hnode
    exact ⟨σ, node, hreach, hd, by simpa using hlink, hnone⟩
  · obtain ⟨σ, hreach, hcheck⟩ := Reach.of_eval (step smallConfig) (brokerInit (J := Nat))
      [.initDownstream (cstr "r"), .connect 0, .subscribe 0 (readEntry "/downstream/x/a" 1 255) 0,
        .initDownstream (cstr "x")]
      (fun σ => (σ.dnode.get 1).any (fun node => node.link.isNone) ∧
        (step smallConfig σ (.connect 1)).any (fun σ' => (σ'.dnode.get 1).any (fun node =>
          (node.respSubStreams.get (cstr "/a")).isSome ∧ node.link.any (fun link => link.requests = [])))) (by decide)
    simp only [Bool.decide_and, Bool.and_eq_true, decide_eq_true_eq] at hcheck
    obtain ⟨hnode, hrun⟩ := hcheck
    obtain ⟨node, hd, hlink⟩ := (Option.any_eq_true _ _).mp hnode
    obtain ⟨σ', hσ', hrun⟩ := (Option.any_eq_true _ _).mp hrun
    obtain ⟨node', hd', hrun⟩ := (Option.any_eq_true _ _).mp hrun
    simp only [Bool.and_eq_true, decide_eq_true_eq] at hrun
    obtain ⟨hstream, hrun⟩ := hrun
    obtain ⟨link, hlink', hnil⟩ := (Option.any_eq_true _ _).mp hrun
    refine ⟨σ, σ', node, hreach, hd, by simpa using hlink, hσ', ?_⟩
    rintro ⟨-, -, node'', link'', hd'', hlink'', hall⟩
    cases hd'.symm.trans hd''
    cases hlink'.symm.trans hlink''
    obtain ⟨st, hst⟩ := Option.isSome_iff_exists.mp hstream
    obtain ⟨stream, -, -, hmem⟩ := hall _ st hst
    rw [show link.requests = [] from by simpa using hnil] at hmem
    cases hmem

end Broker

end DSLink
