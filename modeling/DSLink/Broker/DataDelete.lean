import DSLink.Broker.Coherent

/-!
# `Broker.DataDelete` — the action that deletes a data node

`on_delete_node_invoked` of `data/data.c` with the messages it sends. The handler tells of the removal by hand, and
`broker_node_free` tells of it again through `update_list_child`. The first is sent when the deleted node is listed, over
the stream of its parent, whether the parent has one or not.

## Contents
- `DataState`: the broker, the subscriptions of its own nodes, the subscribers that wait and the messages sent.
- `onDeleteNodeInvoked` and the functions it calls.
- `Deleted`: what a deletion has to do. When it does that.
-/

namespace DSLink.LocalList

/-- One element of `updates` in a response to a list request. -/
inductive ListUpdate
  | row (name : CString) (row : Json)
  | remove (name : CString)

/-- The name a removal is about. -/
def ListUpdate.removes : ListUpdate → Option CString
  | .row _ _ => none
  | .remove name => some name

/-- A response to a list request, with the link it is sent to. -/
structure ListMessage where
  link : LinkId
  rid : Nat
  update : ListUpdate

/-- `SubRequester`, by its address and with its `path`. -/
structure SubRequester where
  id : Nat
  path : CString

/-- The broker with the `sub_stream` of its own nodes, `local_pending_sub`, and what it has sent about lists. -/
structure DataState where
  broker : Broker
  subStream : AssocMap Path (List SubRequester)
  localPendingSub : AssocMap CString (List SubRequester)
  sent : List ListMessage

namespace Broker

/-- The open list stream of a node. -/
def listed (σ : Broker) (p : Path) : Option BrokerListStream := (σ.listStream p).bind σ.stream.get

/-- The links that list a node, with the rid of the request. -/
def requesters (σ : Broker) (p : Path) : List (LinkId × Nat) :=
  (σ.listed p).elim [] (fun stream => stream.requesterLinks.values)

end Broker

namespace DataState

variable (σ : DataState)

/-! ## The handler -/

/-- `broker_ws_send_obj`. The message id of the link is counted up, so the link has to be there. -/
def brokerWsSendObj (m : ListMessage) : Option DataState := do
  let _ ← σ.broker.link.get m.link
  some { σ with sent := σ.sent ++ [m] }

/-- The loop over `requester_links` that sends one object under the rid of each requester. -/
def sendEach (stream : BrokerListStream) (update : ListUpdate) : Option DataState :=
  stream.requesterLinks.values.foldlM (fun τ e => τ.brokerWsSendObj ⟨e.1, e.2, update⟩) σ

/-- What `update_list_child` tells of a child. -/
def childUpdate (p : Path) (name : CString) : ListUpdate :=
  match σ.broker.node.get (name :: p) with
  | some child => .row name (σ.broker.childRow child)
  | none => .remove name

/-- `update_list_child`. Nothing is done without a stream. -/
def updateListChild (p : Path) (name : CString) : Option DataState :=
  match σ.broker.listStream p with
  | none => some σ
  | some s => do
    let stream ← σ.broker.stream.get s
    sendEach { σ with broker := σ.broker.updateListChild p (some s) name } stream (σ.childUpdate p name)

/-- `broker_subscribe_local_nonexistent`. -/
def brokerSubscribeLocalNonexistent (sub : SubRequester) : DataState :=
  { σ with localPendingSub :=
      σ.localPendingSub.set sub.path ((σ.localPendingSub.get sub.path).getD [] ++ [sub]) }

/-- `broker_stream_free` for the subscription stream of a local node. -/
def freeSubStream (p : Path) : DataState :=
  match σ.subStream.get p with
  | none => σ
  | some subs =>
    let τ := subs.foldl brokerSubscribeLocalNonexistent σ
    { τ with subStream := τ.subStream.erase p }

/-- The subscription streams of a node and of all below it. -/
def freeSubsBelow (p : Path) : DataState :=
  ((σ.broker.node.entries.map Prod.fst).filter p.isSuffixOf).foldl freeSubStream σ

/-- `broker_node_free`. The node and all below it are freed with their streams, then its parent is told. -/
def brokerNodeFree (parent : Path) (name : CString) : Option DataState := do
  let _ ← σ.broker.node.get (name :: parent)
  let broker ← σ.broker.freeBelow (name :: parent)
  updateListChild { σ.freeSubsBelow (name :: parent) with broker } parent name

/-- The loop over `node->parent->list_stream->requester_links`. -/
def sendOverParent (parent : Path) (update : ListUpdate) : Option DataState := do
  let above ← σ.broker.listStream parent
  let stream ← σ.broker.stream.get above
  σ.sendEach stream update

/-- The block of `on_delete_node_invoked` for a node that is listed. The name goes out of the node's own cache; the
    requesters are those of the parent, whose stream is not looked at before. -/
def tellByHand (parent : Path) (name : CString) : Option DataState :=
  match σ.broker.listStream (name :: parent) with
  | none => some σ
  | some s => do
    let stream ← σ.broker.stream.get s
    let τ : DataState := { σ with broker := σ.broker.patch s name none }
    if stream.requesterLinks.size > 0 then τ.sendOverParent parent (.remove name) else some τ

/-- `on_delete_node_invoked` for the node `name` below `parent`. -/
def onDeleteNodeInvoked (parent : Path) (name : CString) : Option DataState := do
  let τ ← σ.tellByHand parent name
  τ.brokerNodeFree parent name

end DataState

/-- A node and all below it are gone, no other node or subscription is touched, and each requester that lists the parent
    has been told once. -/
structure Deleted (σ : DataState) (parent : Path) (name : CString) (τ : DataState) : Prop where
  nodes : ∀ q, τ.broker.node.get q = if (name :: parent).isSuffixOf q then none else σ.broker.node.get q
  subs : ∀ q, (σ.broker.node.get q).isSome →
    τ.subStream.get q = if (name :: parent).isSuffixOf q then none else σ.subStream.get q
  told : τ.sent = σ.sent ++ (σ.broker.requesters parent).map (fun e => ⟨e.1, e.2, .remove name⟩)

/-! ## What freeing needs -/

namespace Broker

variable {σ τ : Broker} {p q : Path} {s : ListStreamId} {stream : BrokerListStream}

/-- A link is there. -/
def Alive (σ : Broker) (L : LinkId) : Prop := (σ.link.get L).isSome = true

/-- The same links are there. -/
def SameAlive (σ τ : Broker) : Prop := ∀ L, τ.Alive L ↔ σ.Alive L

theorem SameAlive.trans {υ : Broker} (h : SameAlive σ τ) (h' : SameAlive τ υ) : SameAlive σ υ :=
  fun L => (h' L).trans (h L)

theorem sameAlive_fileOther (L : LinkId) (rid : Nat) : SameAlive σ (σ.fileOther L rid) := by
  intro L'
  unfold Alive fileOther
  rw [Heap.get_modify]
  split <;> simp [*]

theorem requesters_of_listed (h : σ.listed p = some stream) : σ.requesters p = stream.requesterLinks.values := by
  rw [requesters, h]
  rfl

theorem requesters_of_none (h : σ.listStream p = none) : σ.requesters p = [] := by
  rw [requesters, listed, h]
  rfl

theorem listed_eq_some (h : σ.Wf) (hp : σ.listStream p = some s) :
    ∃ stream, σ.stream.get s = some stream ∧ stream.node = p ∧ σ.listed p = some stream := by
  obtain ⟨stream, hs, hn⟩ := h.streams hp
  exact ⟨stream, hs, hn, by rw [listed, hp, Option.bind_some, hs]⟩

theorem isSome_bind_some {α β : Type} {x : Option α} {f : α → β} :
    (x.bind (fun a => some (f a))).isSome ↔ x.isSome := by
  cases x <;> simp

/-- A list stream is freed if and only if its requesters are there. -/
theorem isSome_brokerStreamFree (hs : σ.stream.get s = some stream) :
    (σ.brokerStreamFree s).isSome ↔ ∀ e ∈ stream.requesterLinks.values, σ.Alive e.1 := by
  have hloop : (stream.requesterLinks.entries.foldlM (fun (τ : Broker) (e : CString × LinkId × Nat) => do
      let _ ← τ.link.get e.2.1
      some (τ.fileOther e.2.1 e.2.2)) σ).isSome ↔ ∀ e ∈ stream.requesterLinks.entries, σ.Alive e.2.1 := by
    refine foldlM_isSome (fun _ τ => SameAlive σ τ) (fun τ e _ hτ => ⟨?_, fun υ hυ => ?_⟩) (fun _ => Iff.rfl)
    · rw [← hτ]
      cases hL : τ.link.get e.2.1 <;> simp [Alive, hL]
    · obtain ⟨-, -, hυ⟩ := Option.bind_eq_some_iff.mp hυ
      cases hυ
      exact hτ.trans (sameAlive_fileOther _ _)
  rw [brokerStreamFree, hs, AssocMap.values, List.forall_mem_map, ← hloop]
  exact isSome_bind_some

theorem sameAlive_brokerStreamFree (hτ : σ.brokerStreamFree s = some τ) : SameAlive σ τ := by
  simp only [brokerStreamFree, Option.bind_eq_bind, Option.bind_eq_some_iff, Option.some.injEq] at hτ
  obtain ⟨stream, -, υ, hυ, rfl⟩ := hτ
  have hloop : SameAlive σ υ := by
    refine foldlM_invariant (SameAlive σ) (fun τ e _ υ hf he => ?_) hυ (fun _ => Iff.rfl)
    obtain ⟨-, -, he⟩ := Option.bind_eq_some_iff.mp he
    cases he
    exact hf.trans (sameAlive_fileOther _ _)
  exact hloop

/-! ## The nodes below a node -/

theorem streamOfEntry {e : Path × BrokerNode} (he : e ∈ σ.node.entries) : e.2.listStream = σ.listStream e.1 := by
  rw [listStream, AssocMap.mem_entries.mp he, Option.bind_some]

/-- What the loop of `freeBelow` has left alone while it still has nodes to free. -/
structure Untouched (σ : Broker) (rest : List (Path × BrokerNode)) (τ : Broker) : Prop where
  nodes : ∀ e ∈ rest, e ∈ σ.node.entries
  nodup : (rest.map Prod.fst).Nodup
  alive : SameAlive σ τ
  streams : ∀ e ∈ rest, ∀ s, e.2.listStream = some s → τ.stream.get s = σ.stream.get s

/-- One node of the loop. -/
theorem Untouched.step (h : σ.Wf) {e : Path × BrokerNode} {rest : List (Path × BrokerNode)}
    (hτ : Untouched σ (e :: rest) τ) :
    ((e.2.listStream.elim (some τ) τ.brokerStreamFree).isSome ↔ ∀ x ∈ σ.requesters e.1, σ.Alive x.1) ∧
      ∀ υ, e.2.listStream.elim (some τ) τ.brokerStreamFree = some υ → Untouched σ rest υ := by
  have hmem := hτ.nodes e List.mem_cons_self
  have hrest : Untouched σ rest τ :=
    ⟨fun e' he' => hτ.nodes e' (List.mem_cons_of_mem _ he'), (List.nodup_cons.mp hτ.nodup).2, hτ.alive,
      fun e' he' => hτ.streams e' (List.mem_cons_of_mem _ he')⟩
  cases hs : e.2.listStream with
  | none =>
    rw [streamOfEntry hmem] at hs
    refine ⟨by simp [requesters_of_none hs], fun υ hυ => ?_⟩
    cases hυ
    exact hrest
  | some s =>
    have hget := hτ.streams e List.mem_cons_self s hs
    rw [streamOfEntry hmem] at hs
    obtain ⟨stream, hst, hnode, hlisted⟩ := listed_eq_some h hs
    refine ⟨?_, fun υ hυ => ⟨hrest.nodes, hrest.nodup, hτ.alive.trans (sameAlive_brokerStreamFree hυ), ?_⟩⟩
    · rw [requesters_of_listed hlisted]
      show (τ.brokerStreamFree s).isSome ↔ _
      rw [isSome_brokerStreamFree (hget.trans hst)]
      exact forall₂_congr (fun x _ => hτ.alive x.1)
    · intro e' he' s' hs'
      rw [← hrest.streams e' he' s' hs']
      refine (brokerStreamFree_frees (S := {s}) rfl hυ).stream s' ?_
      -- two nodes have two streams
      rintro rfl
      rw [streamOfEntry (hrest.nodes e' he')] at hs'
      obtain ⟨stream', hst', hnode', -⟩ := listed_eq_some h hs'
      cases hst.symm.trans hst'
      have hin : e.1 ∈ rest.map Prod.fst := by
        rw [← hnode, hnode']
        exact List.mem_map_of_mem he'
      exact (List.nodup_cons.mp hτ.nodup).1 hin

/-- A node is freed with all below it if and only if the requesters of all these are there. -/
theorem isSome_freeBelow (h : σ.Wf) :
    (σ.freeBelow p).isSome ↔ ∀ q, p.isSuffixOf q = true → ∀ x ∈ σ.requesters q, σ.Alive x.1 := by
  unfold freeBelow
  rw [Option.bind_eq_bind, isSome_bind_some, foldlM_isSome (Untouched σ) (fun τ e rest hτ => hτ.step h)
    ⟨fun e he => (List.mem_filter.mp he).1, σ.node.nodup.sublist (List.filter_sublist.map _), fun _ => Iff.rfl,
      fun _ _ _ _ => rfl⟩]
  constructor
  · intro hall q hq x hx
    cases hn : σ.node.get q with
    | none =>
      have : σ.listStream q = none := by rw [listStream, hn]; rfl
      rw [requesters_of_none this] at hx
      cases hx
    | some node => exact hall (q, node) (List.mem_filter.mpr ⟨AssocMap.mem_entries.mpr hn, hq⟩) x hx
  · exact fun hall e he => hall e.1 (List.mem_filter.mp he).2

theorem sameAlive_freeBelow (hτ : σ.freeBelow p = some τ) : SameAlive σ τ := by
  simp only [freeBelow, Option.bind_eq_bind, Option.bind_eq_some_iff, Option.some.injEq] at hτ
  obtain ⟨υ, hυ, rfl⟩ := hτ
  have hloop : SameAlive σ υ := by
    refine foldlM_invariant (SameAlive σ) (fun τ e _ υ hf he => ?_) hυ (fun _ => Iff.rfl)
    cases hs : e.2.listStream with
    | none =>
      rw [hs] at he
      cases he
      exact hf
    | some s =>
      rw [hs] at he
      exact hf.trans (sameAlive_brokerStreamFree he)
  exact hloop

theorem node_freeBelow (hτ : σ.freeBelow p = some τ) (q : Path) :
    τ.node.get q = if p.isSuffixOf q then none else σ.node.get q := by
  obtain ⟨υ, hfrees, rfl⟩ := freeBelow_frees hτ
  rw [get_removeNodes, hfrees.node]

/-- The streams of the nodes that stay are left alone. -/
theorem listed_freeBelow (h : σ.Wf) (hτ : σ.freeBelow p = some τ) (hq : p.isSuffixOf q = false) :
    τ.listStream q = σ.listStream q ∧ τ.listed q = σ.listed q := by
  have hstream : τ.listStream q = σ.listStream q := by
    rw [listStream, node_freeBelow hτ, hq]
    rfl
  refine ⟨hstream, ?_⟩
  rw [listed, listed, hstream]
  cases hs : σ.listStream q with
  | none => rfl
  | some s =>
    obtain ⟨υ, hfrees, rfl⟩ := freeBelow_frees hτ
    exact hfrees.stream s (not_mem_streamsBelow h hq hs)

/-! ## A cache that is patched -/

theorem requesters_patch (s : ListStreamId) (k : CString) (v : Option Json) (q : Path) :
    (σ.patch s k v).requesters q = σ.requesters q := by
  unfold requesters listed
  show (((σ.listStream q).bind (σ.stream.modify s _).get).elim [] _) = _
  cases hq : σ.listStream q with
  | none => rfl
  | some s' =>
    rw [Option.bind_some, Option.bind_some, Heap.get_modify]
    split
    · rename_i hs
      subst hs
      cases σ.stream.get s' <;> rfl
    · rfl

end Broker

/-! ## Messages -/

namespace DataState

variable {σ τ : DataState} {p parent : Path} {name : CString}

/-- The messages that tell of a removal. -/
def removals (name : CString) (requesters : List (LinkId × Nat)) : List ListMessage :=
  requesters.map (fun e => ⟨e.1, e.2, .remove name⟩)

theorem foldlM_brokerWsSendObj {l : List (LinkId × Nat)} {u : ListUpdate} :
    l.foldlM (fun τ e => τ.brokerWsSendObj ⟨e.1, e.2, u⟩) σ = some τ ↔
      (∀ e ∈ l, σ.broker.Alive e.1) ∧ τ = { σ with sent := σ.sent ++ l.map (fun e => ⟨e.1, e.2, u⟩) } := by
  induction l generalizing σ with
  | nil => simp [eq_comm]
  | cons e l ih =>
    rw [List.foldlM_cons, List.forall_mem_cons, List.map_cons]
    cases hL : σ.broker.link.get e.1 with
    | none => simp [brokerWsSendObj, Broker.Alive, hL]
    | some link =>
      have hsend : σ.brokerWsSendObj ⟨e.1, e.2, u⟩ = some { σ with sent := σ.sent ++ [⟨e.1, e.2, u⟩] } := by
        simp [brokerWsSendObj, hL]
      rw [hsend, Option.bind_eq_bind, Option.bind_some, ih]
      simp [Broker.Alive, hL]

/-- One object is sent to each requester, and each has to be there. -/
theorem sendEach_eq_some {stream : BrokerListStream} {u : ListUpdate} :
    σ.sendEach stream u = some τ ↔ (∀ e ∈ stream.requesterLinks.values, σ.broker.Alive e.1) ∧
      τ = { σ with sent := σ.sent ++ stream.requesterLinks.values.map (fun e => ⟨e.1, e.2, u⟩) } :=
  foldlM_brokerWsSendObj

/-- The row of a node that is gone is taken from each requester. -/
theorem updateListChild_removed (hgone : σ.broker.node.get (name :: p) = none)
    (hlisted : σ.broker.listStream p ≠ none → σ.broker.listed p ≠ none) :
    σ.updateListChild p name = some τ ↔ (∀ e ∈ σ.broker.requesters p, σ.broker.Alive e.1) ∧
      τ = { σ with
        broker := σ.broker.brokerNodeUpdateChild p name
        sent := σ.sent ++ removals name (σ.broker.requesters p) } := by
  unfold updateListChild Broker.brokerNodeUpdateChild
  cases hp : σ.broker.listStream p with
  | none =>
    simp only [Broker.requesters_of_none hp, removals, Broker.updateListChild, Option.some.injEq, List.not_mem_nil,
      false_imp_iff, implies_true, true_and, List.map_nil, List.append_nil]
    exact eq_comm
  | some s =>
    have hget : σ.broker.listed p = σ.broker.stream.get s := by rw [Broker.listed, hp, Option.bind_some]
    cases hs : σ.broker.stream.get s with
    | none =>
      rw [hp, hget, hs] at hlisted
      exact absurd rfl (hlisted (Option.some_ne_none s))
    | some stream =>
      have hupdate : σ.childUpdate p name = .remove name := by rw [childUpdate, hgone]
      show (σ.broker.stream.get s).bind _ = some τ ↔ _
      rw [hs, Option.bind_some, sendEach_eq_some, hupdate, Broker.requesters_of_listed (hget.trans hs)]
      rfl

/-! ## Subscriptions -/

theorem subscribers_pend (subs : List SubRequester) :
    (subs.foldl brokerSubscribeLocalNonexistent σ).broker = σ.broker ∧
      (subs.foldl brokerSubscribeLocalNonexistent σ).subStream = σ.subStream ∧
      (subs.foldl brokerSubscribeLocalNonexistent σ).sent = σ.sent := by
  induction subs generalizing σ with
  | nil => exact ⟨rfl, rfl, rfl⟩
  | cons sub subs ih => exact ih

/-- One subscription stream is gone, nothing else of the broker. -/
theorem freeSubStream_spec (p : Path) : (σ.freeSubStream p).broker = σ.broker ∧ (σ.freeSubStream p).sent = σ.sent ∧
    ∀ q, (σ.freeSubStream p).subStream.get q = if q = p then none else σ.subStream.get q := by
  unfold freeSubStream
  cases hp : σ.subStream.get p with
  | none =>
    refine ⟨rfl, rfl, fun q => ?_⟩
    by_cases hq : q = p
    · rw [if_pos hq, hq]
      exact hp
    · rw [if_neg hq]
  | some subs =>
    obtain ⟨hbroker, hsub, hsent⟩ := subscribers_pend (σ := σ) subs
    refine ⟨hbroker, hsent, fun q => ?_⟩
    show ((List.foldl _ σ subs).subStream.erase p).get q = _
    rw [hsub, AssocMap.get_erase]

theorem foldl_freeSubStream (l : List Path) : (l.foldl freeSubStream σ).broker = σ.broker ∧
    (l.foldl freeSubStream σ).sent = σ.sent ∧
    ∀ q, (l.foldl freeSubStream σ).subStream.get q = if q ∈ l then none else σ.subStream.get q := by
  induction l generalizing σ with
  | nil => exact ⟨rfl, rfl, fun q => by simp⟩
  | cons p l ih =>
    obtain ⟨hbroker, hsent, hsub⟩ := freeSubStream_spec (σ := σ) p
    obtain ⟨hbroker', hsent', hsub'⟩ := ih (σ := σ.freeSubStream p)
    refine ⟨hbroker'.trans hbroker, hsent'.trans hsent, fun q => ?_⟩
    rw [List.foldl_cons, hsub', hsub]
    by_cases hq : q ∈ l <;> by_cases hqp : q = p <;> simp [hq, hqp]

/-! ## The node is freed -/

/-- The links that list the parent of a node, the node or one below it are there. -/
def RequestersAlive (σ : Broker) (parent : Path) (name : CString) : Prop :=
  ∀ q, q = parent ∨ (name :: parent).isSuffixOf q = true → ∀ x ∈ σ.requesters q, σ.Alive x.1

/-- What is left for `broker_node_update_child` once the node and all below it are freed. -/
theorem told_of_freeBelow {broker : Broker} (h : σ.broker.Wf) (hb : σ.broker.freeBelow (name :: parent) = some broker) :
    updateListChild { σ.freeSubsBelow (name :: parent) with broker } parent name = some τ ↔
      (∀ e ∈ σ.broker.requesters parent, σ.broker.Alive e.1) ∧
        τ = { σ.freeSubsBelow (name :: parent) with
          broker := broker.brokerNodeUpdateChild parent name
          sent := σ.sent ++ removals name (σ.broker.requesters parent) } := by
  obtain ⟨hstream, hlisted⟩ := Broker.listed_freeBelow h hb (Broker.isSuffixOf_tail name parent)
  have hrequesters : broker.requesters parent = σ.broker.requesters parent := by
    rw [Broker.requesters, hlisted, Broker.requesters]
  have halive := Broker.sameAlive_freeBelow hb
  have hsent : (σ.freeSubsBelow (name :: parent)).sent = σ.sent := (foldl_freeSubStream _).2.1
  rw [updateListChild_removed]
  · show (∀ e ∈ broker.requesters parent, broker.Alive e.1) ∧ _ ↔ _
    rw [hrequesters, hsent]
    exact and_congr_left' (forall₂_congr (fun e _ => halive e.1))
  · show broker.node.get (name :: parent) = none
    rw [Broker.node_freeBelow hb, if_pos (List.isSuffixOf_iff_suffix.mpr (List.suffix_refl _))]
  · show broker.listStream parent ≠ none → broker.listed parent ≠ none
    rw [hstream, hlisted]
    intro hp
    obtain ⟨s, hs⟩ := Option.ne_none_iff_exists'.mp hp
    obtain ⟨stream, -, -, hst⟩ := Broker.listed_eq_some h hs
    rw [hst]
    exact Option.some_ne_none stream

theorem isSome_brokerNodeFree (h : σ.broker.Wf) (hn : (σ.broker.node.get (name :: parent)).isSome) :
    (σ.brokerNodeFree parent name).isSome ↔ RequestersAlive σ.broker parent name := by
  obtain ⟨node, hnode⟩ := Option.isSome_iff_exists.mp hn
  have hbelow := Broker.isSome_freeBelow (p := name :: parent) h
  unfold brokerNodeFree
  rw [hnode]
  cases hb : σ.broker.freeBelow (name :: parent) with
  | none =>
    rw [hb] at hbelow
    refine iff_of_false (by simp) (fun hall => ?_)
    exact absurd (hbelow.mpr (fun q hq => hall q (.inr hq))) (by simp)
  | some broker =>
    rw [hb] at hbelow
    show (updateListChild _ parent name).isSome ↔ _
    simp only [Option.isSome_iff_exists, told_of_freeBelow h hb]
    constructor
    · rintro ⟨-, hparent, -⟩ q (rfl | hq)
      · exact hparent
      · exact hbelow.mp rfl q hq
    · exact fun hall => ⟨_, hall parent (.inl rfl), rfl⟩

/-- `broker_node_free` deletes, and tells each requester of the parent once. -/
theorem deleted_of_brokerNodeFree (h : σ.broker.Wf) (hτ : σ.brokerNodeFree parent name = some τ) :
    Deleted σ parent name τ := by
  simp only [brokerNodeFree, Option.bind_eq_bind, Option.bind_eq_some_iff] at hτ
  obtain ⟨-, -, broker, hb, hτ⟩ := hτ
  obtain ⟨-, rfl⟩ := (told_of_freeBelow h hb).mp hτ
  refine ⟨fun q => ?_, fun q hq => ?_, rfl⟩
  · show (broker.updateListChild _ _ _).node.get q = _
    rw [Broker.node_updateListChild, Broker.node_freeBelow hb]
  · show (σ.freeSubsBelow (name :: parent)).subStream.get q = _
    rw [freeSubsBelow, (foldl_freeSubStream _).2.2 q]
    obtain ⟨node, hnode⟩ := Option.isSome_iff_exists.mp hq
    have hmem : q ∈ σ.broker.node.entries.map Prod.fst := List.mem_map_of_mem (AssocMap.mem_entries.mpr hnode)
    simp only [List.mem_filter, hmem, true_and]

/-! ## What the handler sends by hand -/

/-- The messages that are sent before the node is freed. -/
def byHand (σ : Broker) (parent : Path) (name : CString) : List ListMessage :=
  if σ.requesters (name :: parent) = [] then [] else removals name (σ.requesters parent)

/-- The block is passed when nobody lists the node, or the parent has a stream whose requesters are there. -/
def HandOk (σ : Broker) (parent : Path) (name : CString) : Prop :=
  σ.requesters (name :: parent) = [] ∨
    σ.listStream parent ≠ none ∧ ∀ e ∈ σ.requesters parent, σ.Alive e.1

/-- A broker with another cache. -/
structure Patched (σ τ : Broker) : Prop where
  node : τ.node = σ.node
  link : τ.link = σ.link
  requesters : ∀ q, τ.requesters q = σ.requesters q
  wf : σ.Wf → τ.Wf

theorem patched_refl : Patched σ.broker σ.broker := ⟨rfl, rfl, fun _ => rfl, id⟩

theorem patched_patch (s : ListStreamId) (k : CString) (v : Option Json) : Patched σ.broker (σ.broker.patch s k v) :=
  ⟨rfl, rfl, Broker.requesters_patch s k v, fun h => h.patch s k v⟩

/-- The parent needs a stream, and its requesters have to be there. -/
theorem sendOverParent_eq_some (h : σ.broker.Wf) {u : ListUpdate} : σ.sendOverParent parent u = some τ ↔
    (σ.broker.listStream parent ≠ none ∧ ∀ e ∈ σ.broker.requesters parent, σ.broker.Alive e.1) ∧
      τ = { σ with sent := σ.sent ++ (σ.broker.requesters parent).map (fun e => ⟨e.1, e.2, u⟩) } := by
  unfold sendOverParent
  cases hp : σ.broker.listStream parent with
  | none => simp
  | some above =>
    obtain ⟨stream, hs, -, hlisted⟩ := Broker.listed_eq_some h hp
    rw [Option.bind_eq_bind, Option.bind_some, hs, Option.bind_eq_bind, Option.bind_some, sendEach_eq_some,
      Broker.requesters_of_listed hlisted]
    simp

/-- The block for a node with a stream. -/
theorem tellByHand_listed (h : σ.broker.Wf) {s : ListStreamId} (hs : σ.broker.listStream (name :: parent) = some s) :
    σ.tellByHand parent name =
      let ρ : DataState := { σ with broker := σ.broker.patch s name none }
      if σ.broker.requesters (name :: parent) = [] then some ρ
      else ρ.sendOverParent parent (.remove name) := by
  obtain ⟨stream, hst, -, hlisted⟩ := Broker.listed_eq_some h hs
  have hsize : stream.requesterLinks.size > 0 ↔ stream.requesterLinks.values ≠ [] := by
    rw [← List.length_pos_iff, AssocMap.values, List.length_map]
    rfl
  unfold tellByHand
  rw [hs]
  show (σ.broker.stream.get s).bind _ = _
  rw [hst, Option.bind_some, Broker.requesters_of_listed hlisted]
  by_cases hnone : stream.requesterLinks.values = []
  · rw [if_neg (by simp [hsize, hnone]), if_pos hnone]
  · rw [if_pos (hsize.mpr hnone), if_neg hnone]

theorem tellByHand_spec (h : σ.broker.Wf) :
    ((σ.tellByHand parent name).isSome ↔ HandOk σ.broker parent name) ∧
      ∀ τ, σ.tellByHand parent name = some τ → Patched σ.broker τ.broker ∧ τ.subStream = σ.subStream ∧
        τ.sent = σ.sent ++ byHand σ.broker parent name := by
  cases hs : σ.broker.listStream (name :: parent) with
  | none =>
    have hno := Broker.requesters_of_none hs
    have heq : σ.tellByHand parent name = some σ := by rw [tellByHand, hs]
    rw [heq]
    refine ⟨by simp [HandOk, hno], fun τ hτ => ?_⟩
    cases hτ
    exact ⟨patched_refl, rfl, by simp [byHand, hno]⟩
  | some s =>
    rw [tellByHand_listed h hs]
    by_cases hno : σ.broker.requesters (name :: parent) = []
    · rw [if_pos hno]
      refine ⟨by simp [HandOk, hno], fun τ hτ => ?_⟩
      cases hτ
      exact ⟨patched_patch s name none, rfl, by simp [byHand, hno]⟩
    · have hp := patched_patch (σ := σ) s name none
      have habove : ∀ τ, ({ σ with broker := σ.broker.patch s name none } : DataState).sendOverParent parent
          (.remove name) = some τ ↔ _ := fun τ => sendOverParent_eq_some (hp.wf h)
      rw [if_neg hno]
      refine ⟨?_, fun τ hτ => ?_⟩
      · simp only [Option.isSome_iff_exists, habove, HandOk, hno, false_or]
        rw [exists_and_left]
        simp only [exists_eq, and_true, hp.requesters]
        rfl
      · obtain ⟨-, rfl⟩ := (habove τ).mp hτ
        refine ⟨hp, rfl, ?_⟩
        rw [byHand, if_neg hno, hp.requesters]
        rfl

theorem Patched.requestersAlive {σ τ : Broker} (h : Patched σ τ) :
    RequestersAlive τ parent name ↔ RequestersAlive σ parent name := by
  unfold RequestersAlive Broker.Alive
  simp only [h.requesters, h.link]

/-! ## The action -/

/-- What the action sends, where it comes to its end: what is sent by hand, and one removal for each requester. -/
theorem onDeleteNodeInvoked_spec (h : σ.broker.Wf) (hτ : σ.onDeleteNodeInvoked parent name = some τ) :
    (∀ q, τ.broker.node.get q = if (name :: parent).isSuffixOf q then none else σ.broker.node.get q) ∧
      (∀ q, (σ.broker.node.get q).isSome →
        τ.subStream.get q = if (name :: parent).isSuffixOf q then none else σ.subStream.get q) ∧
      τ.sent = σ.sent ++ byHand σ.broker parent name ++ removals name (σ.broker.requesters parent) := by
  obtain ⟨υ, hυ, hτ⟩ := Option.bind_eq_some_iff.mp hτ
  obtain ⟨hp, hsubs, hsent⟩ := (tellByHand_spec h).2 υ hυ
  have hd := deleted_of_brokerNodeFree (hp.wf h) hτ
  refine ⟨fun q => ?_, fun q hq => ?_, ?_⟩
  · rw [hd.nodes, hp.node]
  · rw [hd.subs q (hp.node ▸ hq), hsubs]
  · rw [hd.told, hsent, hp.requesters]
    rfl

/-- The action comes to its end if and only if the block by hand is passed and no stream of it leads to a freed link. -/
theorem isSome_onDeleteNodeInvoked (h : σ.broker.Wf) (hn : (σ.broker.node.get (name :: parent)).isSome) :
    (σ.onDeleteNodeInvoked parent name).isSome ↔
      HandOk σ.broker parent name ∧ RequestersAlive σ.broker parent name := by
  have hspec : ((σ.tellByHand parent name).isSome ↔ _) ∧ _ := tellByHand_spec h
  unfold onDeleteNodeInvoked
  cases hυ : σ.tellByHand parent name with
  | none =>
    rw [hυ] at hspec
    exact iff_of_false (by simp) (fun hall => absurd (hspec.1.mpr hall.1) (by simp))
  | some υ =>
    rw [hυ] at hspec
    have hp := (hspec.2 υ rfl).1
    rw [Option.bind_eq_bind, Option.bind_some, isSome_brokerNodeFree (hp.wf h) (hp.node ▸ hn), hp.requestersAlive,
      and_iff_right (hspec.1.mp rfl)]

end DataState

/-- The delete action deletes, and tells each requester of the parent once, if and only if nobody lists the node itself
    and no list stream of the parent, the node or a node below it has a requester that was freed. A listed node is still
    deleted well where the stream of the parent is there and has no requesters. -/
theorem delete_node_exact (σ : DataState) (h : σ.broker.Wf) (parent : Path) (name : CString)
    (hn : (σ.broker.node.get (name :: parent)).isSome) :
    (∃ τ, σ.onDeleteNodeInvoked parent name = some τ ∧ Deleted σ parent name τ) ↔
      (σ.broker.requesters (name :: parent) = [] ∨
        σ.broker.listStream parent ≠ none ∧ σ.broker.requesters parent = []) ∧
      DataState.RequestersAlive σ.broker parent name := by
  have hends := DataState.isSome_onDeleteNodeInvoked h hn
  constructor
  · rintro ⟨τ, hτ, hd⟩
    rw [hτ] at hends
    obtain ⟨hhand, halive⟩ := hends.mp rfl
    have hsent := (DataState.onDeleteNodeInvoked_spec h hτ).2.2
    rw [hd.told, List.append_assoc, List.append_cancel_left_eq] at hsent
    have hnone : DataState.byHand σ.broker parent name = [] := by
      have hlength := congrArg List.length hsent
      rw [List.length_append, DataState.removals, List.length_map] at hlength
      exact List.length_eq_zero_iff.mp (by omega)
    refine ⟨?_, halive⟩
    rcases hhand with hno | hparent
    · exact .inl hno
    · unfold DataState.byHand at hnone
      split at hnone
      · exact .inl ‹_›
      · exact .inr ⟨hparent.1, List.map_eq_nil_iff.mp hnone⟩
  · rintro ⟨hno, halive⟩
    have hhand : DataState.HandOk σ.broker parent name := by
      rcases hno with hno | ⟨hparent, hno⟩
      · exact .inl hno
      · exact .inr ⟨hparent, by simp [hno]⟩
    obtain ⟨τ, hτ⟩ := Option.isSome_iff_exists.mp (hends.mpr ⟨hhand, halive⟩)
    obtain ⟨hnodes, hsubs, hsent⟩ := DataState.onDeleteNodeInvoked_spec h hτ
    refine ⟨τ, hτ, hnodes, hsubs, ?_⟩
    have hnone : DataState.byHand σ.broker parent name = [] := by
      unfold DataState.byHand
      rcases hno with hno | ⟨-, hno⟩ <;> simp [hno, DataState.removals]
    rw [hsent, hnone, List.append_nil]
    rfl

/-- `/data/a` is deleted while a requester lists `/data`, and not the node. -/
theorem delete_node_exact_parent : ∃ (σ τ : DataState), σ.broker.requesters [cstr "data"] = [(0, 1)] ∧
    σ.onDeleteNodeInvoked [cstr "data"] (cstr "a") = some τ ∧ Deleted σ [cstr "data"] (cstr "a") τ := by
  obtain ⟨σ, hreach, hcheck⟩ := Reach.of_guarded step (fun σ e => e.plain σ = true) (some brokerInit)
    [.conn (cstr "r") (cstr "r0") none none, .ws 0 (cstr "r0") (cstr "t"), .addNode [cstr "data"] (cstr "a"),
      .list 0 [cstr "data"] 1]
    (fun (σ : Broker) => σ.requesters [cstr "data"] = [(0, 1)] && (σ.link.get 0).isSome &&
      (σ.node.get [cstr "a", cstr "data"]).isSome && σ.node.entries.all (fun e =>
        e.1 = [cstr "data"] || (σ.requesters e.1).isEmpty)) (by decide)
  have hkept : Reach step (fun σ e => e.Kept σ) Start σ :=
    (hreach.mono (fun _ _ => Event.plain_kept)).of_init (fun s hs => Option.some.inj hs ▸ brokerInit_start)
  have hwf : σ.Wf := (hkept.invariant (fun (σ : Broker) => σ.Behind ∅) (fun _ => Start.behind)
    (fun _ _ _ h hk hs => step_behind h hk hs)).wf
  simp only [Bool.and_eq_true, decide_eq_true_eq, List.all_eq_true, Bool.or_eq_true, List.isEmpty_iff] at hcheck
  obtain ⟨⟨⟨hr, hL⟩, hn⟩, hall⟩ := hcheck
  have hother : ∀ q, q ≠ [cstr "data"] → σ.requesters q = [] := by
    intro q hq
    cases hnode : σ.node.get q with
    | none => exact Broker.requesters_of_none (by rw [Broker.listStream, hnode]; rfl)
    | some node => exact (hall (q, node) (AssocMap.mem_entries.mpr hnode)).resolve_left hq
  obtain ⟨τ, hτ, hd⟩ := (delete_node_exact ⟨σ, .empty, .empty, []⟩ hwf [cstr "data"] (cstr "a") hn).mpr
    ⟨.inl (hother _ (by decide)), fun q _ x hx => by
      by_cases hq : q = [cstr "data"]
      · subst hq
        rw [show σ.requesters [cstr "data"] = [(0, 1)] from hr, List.mem_singleton] at hx
        subst hx
        exact hL
      · rw [show σ.requesters q = [] from hother q hq] at hx
        cases hx⟩
  exact ⟨_, τ, hr, hτ, hd⟩

/-- A requester lists `/data/a`, which is deleted. Where nobody lists `/data`, the handler goes through its stream, which
    is absent; where the same link lists `/data` too, it is told twice. -/
theorem delete_node_listed :
    (∃ σ : DataState, Reach step (fun _ _ => True) Start σ.broker ∧
      (σ.broker.node.get [cstr "a", cstr "data"]).isSome ∧ σ.broker.listStream [cstr "data"] = none ∧
      σ.onDeleteNodeInvoked [cstr "data"] (cstr "a") = none) ∧
    ∃ σ τ : DataState, Reach step (fun _ _ => True) Start σ.broker ∧ σ.broker.requesters [cstr "data"] = [(0, 2)] ∧
      σ.onDeleteNodeInvoked [cstr "data"] (cstr "a") = some τ ∧ σ.sent = [] ∧
      τ.sent.map (fun m => (m.link, m.rid, m.update.removes)) = [(0, 2, some (cstr "a")), (0, 2, some (cstr "a"))] := by
  refine ⟨?_, ?_⟩
  · obtain ⟨σ, hreach, hcheck⟩ := Reach.of_eval step (some brokerInit)
      [.conn (cstr "r") (cstr "r0") none none, .ws 0 (cstr "r0") (cstr "t"), .addNode [cstr "data"] (cstr "a"),
        .list 0 [cstr "a", cstr "data"] 1]
      (fun (σ : Broker) => (σ.node.get [cstr "a", cstr "data"]).isSome && σ.listStream [cstr "data"] = none &&
        ((⟨σ, .empty, .empty, []⟩ : DataState).onDeleteNodeInvoked [cstr "data"] (cstr "a")).isNone)
      (by decide)
    simp only [Bool.and_eq_true, decide_eq_true_eq, Option.isNone_iff_eq_none] at hcheck
    obtain ⟨⟨hn, hp⟩, hnone⟩ := hcheck
    exact ⟨⟨σ, .empty, .empty, []⟩, hreach.of_init (fun s hs => Option.some.inj hs ▸ brokerInit_start), hn, hp, hnone⟩
  · obtain ⟨σ, hreach, hcheck⟩ := Reach.of_eval step (some brokerInit)
      [.conn (cstr "r") (cstr "r0") none none, .ws 0 (cstr "r0") (cstr "t"), .addNode [cstr "data"] (cstr "a"),
        .list 0 [cstr "a", cstr "data"] 1, .list 0 [cstr "data"] 2]
      (fun (σ : Broker) => σ.requesters [cstr "data"] = [(0, 2)] &&
        ((⟨σ, .empty, .empty, []⟩ : DataState).onDeleteNodeInvoked [cstr "data"] (cstr "a")).any (fun τ =>
          τ.sent.map (fun m => (m.link, m.rid, m.update.removes)) = [(0, 2, some (cstr "a")), (0, 2, some (cstr "a"))]))
      (by decide)
    simp only [Bool.and_eq_true, decide_eq_true_eq, Option.any_eq_true] at hcheck
    obtain ⟨hr, τ, hτ, hsent⟩ := hcheck
    refine ⟨⟨σ, .empty, .empty, []⟩, τ, hreach.of_init (fun s hs => Option.some.inj hs ▸ brokerInit_start), hr, hτ, rfl, ?_⟩
    exact hsent

end DSLink.LocalList
