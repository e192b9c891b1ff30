import DSLink.Broker.Step

/-!
# `Broker.Frame` — which parts of the state a function leaves alone

`Part` divides the fields of the state into groups that change together, and `Frame ps σ σ'` says that a step
from `σ` to `σ'` changed nothing outside of the parts `ps`: no object of the other parts came or went, and
each kept its fields. Every function of the model below the handlers has one frame lemma; an invariant that
reads only parts outside of a function's frame survives it by that lemma.
-/

namespace DSLink

variable {J : Type}

/-! ## What is on the wire -/

/-- The rows of `s` in a frame. -/
def frameRows (s : SubId) (f : Frame J) : List (Row J) :=
  match f.obj with
  | .updates t rows => if t = s then rows.map Prod.snd else []
  | _ => []

/-- The rows that were sent for `s`, in the order of the wire. -/
def wireRows (s : SubId) (frames : List (Frame J)) : List (Row J) := frames.flatMap (frameRows s)

@[simp] theorem wireRows_nil (s : SubId) : wireRows s ([] : List (Frame J)) = [] := rfl

@[simp] theorem wireRows_append (s : SubId) (fs fs' : List (Frame J)) :
    wireRows s (fs ++ fs') = wireRows s fs ++ wireRows s fs' := by simp [wireRows]

theorem wireRows_wsSendObj (s : SubId) (link : RemoteDSLink J) (obj : OutMsg J) :
    wireRows s (brokerWsSendObj link obj).1.sent
      = wireRows s link.sent ++ frameRows s ⟨(brokerWsSendObj link obj).2, obj⟩ := by
  simp [brokerWsSendObj, wireRows]

/-- The frames on the wire of a node that may have no link. -/
def linkFrames (node : DownstreamNode J) : List (Frame J) := (node.link.map RemoteDSLink.sent).getD []

/-! ## Parts of the state -/

/-- Groups of fields. The first six are fields of SubRequesters, the next six of downstream nodes, then
    two of streams and three of local nodes. `wire` is what `link` says about rows: whether there is a link and
    which rows were sent on it. -/
inductive Part
  | subs | place | sid | qos | qosQueue | queue
  | downs | link | wire | acks | index | resp
  | streams | values
  | nodes | subStream | nodeValue
  | pending | storage | published | roots
  deriving DecidableEq

/-- Two SubRequesters agree on a part. -/
def SubRequester.Agree (p : Part) (r r' : SubRequester J) : Prop :=
  match p with
  | .subs => r'.path = r.path ∧ r'.reqNode = r.reqNode
  | .place => r'.stream = r.stream ∧ r'.pendingNode = r.pendingNode
  | .sid => r'.reqSid = r.reqSid
  | .qos => r'.qos = r.qos
  | .qosQueue => r'.qosQueue = r.qosQueue
  | .queue => r'.messageQueue = r.messageQueue ∧ r'.messageOutputQueueCount = r.messageOutputQueueCount
  | _ => True

/-- Two downstream nodes agree on a part. -/
def DownstreamNode.Agree (p : Part) (n n' : DownstreamNode J) : Prop :=
  match p with
  | .downs => n'.path = n.path ∧ n'.name = n.name ∧ n'.parent = n.parent
  | .link => n'.link = n.link
  | .wire => n'.link.isSome = n.link.isSome ∧ ∀ s, wireRows s (linkFrames n') = wireRows s (linkFrames n)
  | .acks => n'.pendingAcks = n.pendingAcks
  | .index => n'.reqSubPaths = n.reqSubPaths ∧ n'.reqSubSids = n.reqSubSids
  | .resp => n'.rid = n.rid ∧ n'.sid = n.sid ∧ n'.respSubStreams = n.respSubStreams
      ∧ n'.respSubSids = n.respSubSids
  | _ => True

/-- Two streams agree on a part. -/
def BrokerSubStream.Agree (p : Part) (st st' : BrokerSubStream J) : Prop :=
  match p with
  | .streams => st'.respNode = st.respNode ∧ st'.respSid = st.respSid ∧ st'.remotePath = st.remotePath
      ∧ st'.reqSubs = st.reqSubs
  | .values => st'.lastValue = st.lastValue ∧ st'.respQos = st.respQos
  | _ => True

/-- Two local nodes agree on a part. -/
def BrokerNode.Agree (p : Part) (n n' : BrokerNode J) : Prop :=
  match p with
  | .nodes => n'.path = n.path ∧ n'.name = n.name ∧ n'.parent = n.parent ∧ n'.children = n.children
      ∧ n'.onInvoke = n.onInvoke
  | .subStream => n'.subStream = n.subStream
  | .nodeValue => n'.value = n.value
  | _ => True

theorem SubRequester.Agree.refl (p : Part) (r : SubRequester J) : r.Agree p r := by
  cases p <;> simp [SubRequester.Agree]

theorem SubRequester.Agree.trans {p : Part} {a b c : SubRequester J} (h : a.Agree p b) (h' : b.Agree p c) :
    a.Agree p c := by
  cases p <;> simp_all [SubRequester.Agree]

theorem DownstreamNode.Agree.refl (p : Part) (n : DownstreamNode J) : n.Agree p n := by
  cases p <;> simp [DownstreamNode.Agree]

theorem DownstreamNode.Agree.trans {p : Part} {a b c : DownstreamNode J} (h : a.Agree p b)
    (h' : b.Agree p c) : a.Agree p c := by
  cases p <;> simp_all [DownstreamNode.Agree]

theorem BrokerSubStream.Agree.refl (p : Part) (st : BrokerSubStream J) : st.Agree p st := by
  cases p <;> simp [BrokerSubStream.Agree]

theorem BrokerSubStream.Agree.trans {p : Part} {a b c : BrokerSubStream J} (h : a.Agree p b)
    (h' : b.Agree p c) : a.Agree p c := by
  cases p <;> simp_all [BrokerSubStream.Agree]

theorem BrokerNode.Agree.refl (p : Part) (n : BrokerNode J) : n.Agree p n := by
  cases p <;> simp [BrokerNode.Agree]

theorem BrokerNode.Agree.trans {p : Part} {a b c : BrokerNode J} (h : a.Agree p b) (h' : b.Agree p c) :
    a.Agree p c := by
  cases p <;> simp_all [BrokerNode.Agree]

namespace Broker

/-- Two states agree on a part. -/
def Same (p : Part) (σ σ' : Broker J) : Prop :=
  match p with
  | .subs | .place | .sid | .qos | .qosQueue | .queue => Heap.Rel (SubRequester.Agree p) σ.sub σ'.sub
  | .downs | .link | .wire | .acks | .index | .resp => Heap.Rel (DownstreamNode.Agree p) σ.dnode σ'.dnode
  | .streams | .values => Heap.Rel (BrokerSubStream.Agree p) σ.stream σ'.stream
  | .nodes | .subStream | .nodeValue => Heap.Rel (BrokerNode.Agree p) σ.node σ'.node
  | .pending => σ'.localPendingSub = σ.localPendingSub ∧ σ'.remotePendingSub = σ.remotePendingSub
  | .storage => σ'.storage = σ.storage
  | .published => σ'.published = σ.published
  | .roots => σ'.root = σ.root ∧ σ'.upstream = σ.upstream ∧ σ'.downstream = σ.downstream ∧ σ'.data = σ.data

theorem Same.refl (p : Part) (σ : Broker J) : Same p σ σ := by
  have hsub := Heap.Rel.refl (SubRequester.Agree.refl p) σ.sub
  have hdnode := Heap.Rel.refl (DownstreamNode.Agree.refl p) σ.dnode
  have hstream := Heap.Rel.refl (BrokerSubStream.Agree.refl p) σ.stream
  have hnode := Heap.Rel.refl (BrokerNode.Agree.refl p) σ.node
  cases p <;> first | exact hsub | exact hdnode | exact hstream | exact hnode | simp [Same]

theorem Same.trans {p : Part} {σ τ υ : Broker J} (h : Same p σ τ) (h' : Same p τ υ) : Same p σ υ := by
  have hsub := @Heap.Rel.trans _ (SubRequester.Agree p) (fun _ _ _ => .trans) σ.sub τ.sub υ.sub
  have hdnode := @Heap.Rel.trans _ (DownstreamNode.Agree p) (fun _ _ _ => .trans) σ.dnode τ.dnode υ.dnode
  have hstream := @Heap.Rel.trans _ (BrokerSubStream.Agree p) (fun _ _ _ => .trans) σ.stream τ.stream υ.stream
  have hnode := @Heap.Rel.trans _ (BrokerNode.Agree p) (fun _ _ _ => .trans) σ.node τ.node υ.node
  cases p <;>
    first
      | exact hsub h h'
      | exact hdnode h h'
      | exact hstream h h'
      | exact hnode h h'
      | simp_all [Same]

/-- A step from `σ` to `σ'` changed nothing outside of `ps`. -/
def Frame (ps : List Part) (σ σ' : Broker J) : Prop := ∀ p, p ∉ ps → Same p σ σ'

namespace Frame

variable {σ τ υ : Broker J} {ps qs : List Part}

theorem refl (ps : List Part) (σ : Broker J) : Frame ps σ σ := fun p _ => Same.refl p σ

theorem trans (h : Frame ps σ τ) (h' : Frame ps τ υ) : Frame ps σ υ :=
  fun p hp => (h p hp).trans (h' p hp)

theorem mono (h : Frame ps σ τ) (hsub : ∀ p ∈ ps, p ∈ qs) : Frame qs σ τ :=
  fun p hp => h p (fun hm => hp (hsub p hm))

/-- Rewriting a SubRequester touches the parts its rewriting touches. -/
theorem modSub {s : SubId} {f : SubRequester J → SubRequester J}
    (hf : ∀ p, p ∉ ps → ∀ r : SubRequester J, r.Agree p (f r)) : Frame ps σ (σ.modSub s f) := by
  intro p hp
  have h := Heap.rel_modify (SubRequester.Agree.refl p) (h := σ.sub) (i := s) (fun r _ => hf p hp r)
  have h0 := Same.refl p σ
  cases p <;> first | exact h | exact h0

theorem modDnode {d : DownId} {f : DownstreamNode J → DownstreamNode J}
    (hf : ∀ p, p ∉ ps → ∀ n, σ.dnode.get d = some n → n.Agree p (f n)) : Frame ps σ (σ.modDnode d f) := by
  intro p hp
  have h := Heap.rel_modify (DownstreamNode.Agree.refl p) (h := σ.dnode) (i := d) (fun n hn => hf p hp n hn)
  have h0 := Same.refl p σ
  cases p <;> first | exact h | exact h0

theorem modStream {st : StreamId} {f : BrokerSubStream J → BrokerSubStream J}
    (hf : ∀ p, p ∉ ps → ∀ r : BrokerSubStream J, r.Agree p (f r)) : Frame ps σ (σ.modStream st f) := by
  intro p hp
  have h := Heap.rel_modify (BrokerSubStream.Agree.refl p) (h := σ.stream) (i := st) (fun r _ => hf p hp r)
  have h0 := Same.refl p σ
  cases p <;> first | exact h | exact h0

theorem modNode {n : NodeId} {f : BrokerNode J → BrokerNode J}
    (hf : ∀ p, p ∉ ps → ∀ r : BrokerNode J, r.Agree p (f r)) : Frame ps σ (σ.modNode n f) := by
  intro p hp
  have h := Heap.rel_modify (BrokerNode.Agree.refl p) (h := σ.node) (i := n) (fun r _ => hf p hp r)
  have h0 := Same.refl p σ
  cases p <;> first | exact h | exact h0

theorem setPending (σ : Broker J) (l r : AssocMap CString (List SubId)) :
    Frame [.pending] σ { σ with localPendingSub := l, remotePendingSub := r } := by
  intro p hp
  have h0 := Same.refl p σ
  cases p <;> first | exact h0 | simp at hp

theorem setStorage (σ : Broker J) (m : AssocMap (CString × CString) (Nat × Option (List (Row J)))) :
    Frame [.storage] σ { σ with storage := m } := by
  intro p hp
  have h0 := Same.refl p σ
  cases p <;> first | exact h0 | simp at hp

theorem setPublished (σ : Broker J) (l : List (SubId × Row J)) :
    Frame [.published] σ { σ with published := l } := by
  intro p hp
  have h0 := Same.refl p σ
  cases p <;> first | exact h0 | simp at hp

theorem setStream (σ : Broker J) (h : Heap (BrokerSubStream J)) :
    Frame [.streams, .values] σ { σ with stream := h } := by
  intro p hp
  have h0 := Same.refl p σ
  cases p <;> first | exact h0 | simp at hp

theorem setSub (σ : Broker J) (h : Heap (SubRequester J)) :
    Frame [.subs, .place, .sid, .qos, .qosQueue, .queue] σ { σ with sub := h } := by
  intro p hp
  have h0 := Same.refl p σ
  cases p <;> first | exact h0 | simp at hp

theorem setDnode (σ : Broker J) (h : Heap (DownstreamNode J)) :
    Frame [.downs, .link, .wire, .acks, .index, .resp] σ { σ with dnode := h } := by
  intro p hp
  have h0 := Same.refl p σ
  cases p <;> first | exact h0 | simp at hp

theorem setNode (σ : Broker J) (h : Heap (BrokerNode J)) :
    Frame [.nodes, .subStream, .nodeValue] σ { σ with node := h } := by
  intro p hp
  have h0 := Same.refl p σ
  cases p <;> first | exact h0 | simp at hp

/-! ### Reading a frame -/

/-- A live SubRequester outside of the frame stays live and keeps the part. -/
theorem sub (h : Frame ps σ τ) {p : Part} (hp : p ∉ ps)
    (hpart : p ∈ [Part.subs, .place, .sid, .qos, .qosQueue, .queue]) {s : SubId} {r : SubRequester J}
    (hs : σ.sub.get s = some r) : ∃ r', τ.sub.get s = some r' ∧ r.Agree p r' := by
  have h := h p hp
  simp only [List.mem_cons, List.not_mem_nil, or_false] at hpart
  rcases hpart with rfl | rfl | rfl | rfl | rfl | rfl <;> exact Heap.Rel.get h hs

theorem sub_rev (h : Frame ps σ τ) {p : Part} (hp : p ∉ ps)
    (hpart : p ∈ [Part.subs, .place, .sid, .qos, .qosQueue, .queue]) {s : SubId} {r' : SubRequester J}
    (hs : τ.sub.get s = some r') : ∃ r, σ.sub.get s = some r ∧ r.Agree p r' := by
  have h := h p hp
  simp only [List.mem_cons, List.not_mem_nil, or_false] at hpart
  rcases hpart with rfl | rfl | rfl | rfl | rfl | rfl <;> exact Heap.Rel.get_rev h hs

theorem dnode (h : Frame ps σ τ) {p : Part} (hp : p ∉ ps)
    (hpart : p ∈ [Part.downs, .link, .wire, .acks, .index, .resp]) {d : DownId} {n : DownstreamNode J}
    (hd : σ.dnode.get d = some n) : ∃ n', τ.dnode.get d = some n' ∧ n.Agree p n' := by
  have h := h p hp
  simp only [List.mem_cons, List.not_mem_nil, or_false] at hpart
  rcases hpart with rfl | rfl | rfl | rfl | rfl | rfl <;> exact Heap.Rel.get h hd

theorem dnode_rev (h : Frame ps σ τ) {p : Part} (hp : p ∉ ps)
    (hpart : p ∈ [Part.downs, .link, .wire, .acks, .index, .resp]) {d : DownId} {n' : DownstreamNode J}
    (hd : τ.dnode.get d = some n') : ∃ n, σ.dnode.get d = some n ∧ n.Agree p n' := by
  have h := h p hp
  simp only [List.mem_cons, List.not_mem_nil, or_false] at hpart
  rcases hpart with rfl | rfl | rfl | rfl | rfl | rfl <;> exact Heap.Rel.get_rev h hd

end Frame

end Broker

end DSLink
