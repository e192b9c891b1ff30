import DSLink.Broker.ListOwner

/-!
# `Broker.Quiet` — handlers that enter no stream at a responder

Only three handlers draw a rid and enter a stream for it: a list request and an invoke request that are passed on, and
the list requests behind a connect. Everything else leaves the counters of the nodes alone and at most removes entries
from the responder tables. Nothing is assumed of the tables here.

## Contents
- `Quiet`, one lemma a handler, and `step_quiet`.
-/

namespace DSLink

namespace Registry

variable {σ σ' τ : Registry} {s : StreamId} {L : LinkId} {rid : Nat} {P : LinkId → Prop}

/-- No new entry at a responder, except at links in `P`, and no new rid. -/
structure QuietBut (P : LinkId → Prop) (σ σ' : Registry) : Prop where
  next : σ'.link.next = σ.link.next
  table : ∀ l link', ¬ P l → σ'.link.get l = some link' → ∃ link, σ.link.get l = some link ∧
    ∀ r x, link'.responderStreams.get r = some x → link.responderStreams.get r = some x
  dnode : ∀ d node', σ'.dnode.get d = some node' → node'.link = none ∨
    ∃ node, σ.dnode.get d = some node ∧ node'.link = node.link ∧ node'.rid = node.rid

abbrev Quiet (σ σ' : Registry) : Prop := QuietBut (fun _ => False) σ σ'

namespace QuietBut

theorem refl (P : LinkId → Prop) (σ : Registry) : QuietBut P σ σ :=
  ⟨rfl, fun _ link _ hl => ⟨link, hl, fun _ _ h => h⟩, fun _ node hd => .inr ⟨node, hd, rfl, rfl⟩⟩

theorem trans (h : QuietBut P σ τ) (h' : QuietBut P τ σ') : QuietBut P σ σ' := by
  refine ⟨h'.next.trans h.next, fun l link' hP hl => ?_, fun d node' hd => ?_⟩
  · obtain ⟨m, hm, hent⟩ := h'.table l link' hP hl
    obtain ⟨link, hlink, hent'⟩ := h.table l m hP hm
    exact ⟨link, hlink, fun r x hx => hent' r x (hent r x hx)⟩
  · rcases h'.dnode d node' hd with hnone | ⟨m, hm, hlink, hrid⟩
    · exact .inl hnone
    · rcases h.dnode d m hm with hnone | ⟨node, hnode, hlink', hrid'⟩
      · exact .inl (hlink.trans hnone)
      · exact .inr ⟨node, hnode, hlink.trans hlink', hrid.trans hrid'⟩

theorem mono {Q : LinkId → Prop} (h : QuietBut P σ σ') (hPQ : ∀ l, P l → Q l) : QuietBut Q σ σ' :=
  ⟨h.next, fun l link' hQ => h.table l link' (fun hP => hQ (hPQ l hP)), h.dnode⟩

/-- What leaves links and downstream nodes alone. -/
theorem of_rest (hlink : σ'.link = σ.link) (hdnode : σ'.dnode = σ.dnode) : QuietBut P σ σ' :=
  ⟨by rw [hlink], fun l link _ hl => ⟨link, hlink ▸ hl, fun _ _ h => h⟩,
    fun d node hd => .inr ⟨node, hdnode ▸ hd, rfl, rfl⟩⟩

theorem modLink {f : RemoteDSLink → RemoteDSLink}
    (hf : P L ∨ ∀ link r x, (f link).responderStreams.get r = some x → link.responderStreams.get r = some x) :
    QuietBut P σ (σ.modLink L f) := by
  refine ⟨rfl, fun l link' hP hl => ?_, fun d node hd => .inr ⟨node, hd, rfl, rfl⟩⟩
  replace hl : (σ.link.modify L f).get l = some link' := hl
  rw [Heap.get_modify] at hl
  split at hl
  · rename_i hlL
    subst hlL
    obtain ⟨link, hlink, rfl⟩ := Option.map_eq_some_iff.mp hl
    exact ⟨link, hlink, (hf.resolve_left hP) link⟩
  · exact ⟨link', hl, fun _ _ h => h⟩

theorem modDnode {d : DownId} {f : DownstreamNode → DownstreamNode}
    (hf : ∀ node, (f node).rid = node.rid ∧ ((f node).link = node.link ∨ (f node).link = none)) :
    QuietBut P σ (σ.modDnode d f) := by
  refine ⟨rfl, fun l link _ hl => ⟨link, hl, fun _ _ h => h⟩, fun e node' he => ?_⟩
  replace he : (σ.dnode.modify d f).get e = some node' := he
  rw [Heap.get_modify] at he
  split at he
  · rename_i hed
    subst hed
    obtain ⟨node, hnode, rfl⟩ := Option.map_eq_some_iff.mp he
    rcases (hf node).2 with hlink | hnone
    · exact .inr ⟨node, hnode, hlink, (hf node).1⟩
    · exact .inl hnone
  · exact .inr ⟨node', he, rfl, rfl⟩

/-- A loop whose rounds are quiet. -/
theorem foldlM {α : Type} {f : Registry → α → Option Registry} {l : List α}
    (hf : ∀ τ a τ', f τ a = some τ' → QuietBut P τ τ') (hs : l.foldlM f σ = some σ') : QuietBut P σ σ' :=
  foldlM_invariant (fun τ => QuietBut P σ τ) (fun τ a _ τ' h hτ => h.trans (hf τ a τ' hτ)) hs (.refl P σ)

end QuietBut

/-! ## Closing -/

theorem removeRequester_quiet (hs : σ.removeRequester L rid = some σ') : QuietBut P σ σ' := by
  obtain ⟨-, -, ⟨-, rfl⟩ | ⟨-, rfl⟩⟩ := removeRequester_cases hs
  · exact .refl P _
  · exact .modLink (.inr fun _ _ _ h => h)

theorem removeResponder_quiet (hs : σ.removeResponder L rid = some σ') : QuietBut P σ σ' := by
  obtain ⟨-, -, ⟨-, rfl⟩ | ⟨-, rfl⟩⟩ := removeResponder_cases hs
  · exact .refl P _
  · exact .modLink (.inr fun _ _ _ h => (AssocMap.get_erase_eq_some.mp h).2)

theorem dropListResponder_quiet {d : DownId} (hs : σ.dropListResponder d rid = some σ') : QuietBut P σ σ' := by
  simp only [dropListResponder, Option.bind_eq_bind, Option.bind_eq_some_iff] at hs
  obtain ⟨node, -, hs⟩ := hs
  split at hs
  · exact removeResponder_quiet hs
  · cases hs
    exact .refl P _

theorem brokerListReqClosed_quiet (hs : σ.brokerListReqClosed s L = some σ') : QuietBut P σ σ' := by
  simp only [brokerListReqClosed, Option.bind_eq_bind, Option.bind_eq_some_iff] at hs
  obtain ⟨st, -, link, -, dsId, -, hs⟩ := hs
  have hset : ∀ st, QuietBut P σ (σ.setStream s st) := fun _ => .of_rest rfl rfl
  split at hs
  · cases hs
    exact hset _
  · split at hs
    · simp only [Option.bind_eq_some_iff, Option.some.injEq] at hs
      obtain ⟨τ, hτ, rfl⟩ := hs
      refine ((hset _).trans (dropListResponder_quiet hτ)).trans ?_
      exact .modDnode fun node => ⟨rfl, .inl rfl⟩
    · simp only [Option.bind_eq_some_iff, Option.some.injEq] at hs
      obtain ⟨node, -, rfl⟩ := hs
      exact .of_rest rfl rfl

theorem dropResponder_quiet {st : BrokerStream} (hs : σ.dropResponder st = some σ') : QuietBut P σ σ' := by
  simp only [dropResponder] at hs
  split at hs
  · split at hs
    · exact dropListResponder_quiet hs
    · obtain ⟨-, -, rfl⟩ := Option.map_eq_some_iff.mp hs
      exact .refl P _
  · split at hs
    · exact removeResponder_quiet hs
    · cases hs
      exact .refl P _

theorem brokerStreamFree_quiet (hs : σ.brokerStreamFree s = some σ') : QuietBut P σ σ' := by
  simp only [brokerStreamFree, Option.bind_eq_bind, Option.bind_eq_some_iff] at hs
  obtain ⟨stream, -, hs⟩ := hs
  split at hs
  · simp only [Option.bind_eq_some_iff, Option.some.injEq] at hs
    obtain ⟨τ, hτ, υ, hυ, rfl⟩ := hs
    have hloop : QuietBut P σ τ := .foldlM (fun _ _ _ h => removeRequester_quiet h) hτ
    exact (hloop.trans (dropResponder_quiet hυ)).trans (.of_rest rfl rfl)
  · simp only [Option.bind_eq_some_iff, Option.some.injEq] at hs
    obtain ⟨τ, hτ, υ, hυ, rfl⟩ := hs
    exact ((removeRequester_quiet hτ).trans (dropResponder_quiet hυ)).trans (.of_rest rfl rfl)

theorem freeListener_quiet {id : ListenerId} (hs : σ.freeListener id = some σ') : QuietBut P σ σ' := by
  obtain ⟨-, -, rfl⟩ := Option.map_eq_some_iff.mp hs
  exact .of_rest rfl rfl

theorem queryDestroy_quiet {data : ParsedQuery} (hs : σ.queryDestroy data = some σ') : QuietBut P σ σ' := by
  simp only [queryDestroy, Option.bind_eq_bind, Option.bind_eq_some_iff] at hs
  obtain ⟨τ, hτ, hs⟩ := hs
  have hloop : QuietBut P σ τ := .foldlM (fun _ _ _ h => freeListener_quiet h) hτ
  exact hloop.trans (.foldlM (fun _ _ _ h => freeListener_quiet h) hs)

theorem reqCloseCb_quiet (hs : σ.reqCloseCb s L = some σ') : QuietBut P σ σ' := by
  simp only [reqCloseCb, Option.bind_eq_bind, Option.bind_eq_some_iff] at hs
  obtain ⟨stream, -, hs⟩ := hs
  split at hs
  · exact brokerListReqClosed_quiet hs
  · split at hs
    · obtain ⟨-, -, rfl⟩ := Option.map_eq_some_iff.mp hs
      exact .refl P _
    · exact queryDestroy_quiet hs
    · cases hs
      exact .refl P _

theorem requesterStreamClosed_quiet (hs : σ.requesterStreamClosed s L = some σ') : QuietBut P σ σ' := by
  simp only [requesterStreamClosed, Option.bind_eq_bind, Option.bind_eq_some_iff] at hs
  obtain ⟨τ, hτ, stream, -, hs⟩ := hs
  apply (reqCloseCb_quiet hτ).trans
  split at hs
  · split at hs
    · cases hs
      exact .refl P _
    · exact brokerStreamFree_quiet hs
  · exact brokerStreamFree_quiet hs

theorem responderStreamClosed_quiet (hs : σ.responderStreamClosed s = some σ') : QuietBut P σ σ' := by
  simp only [responderStreamClosed, Option.bind_eq_bind, Option.bind_eq_some_iff] at hs
  obtain ⟨stream, -, hs⟩ := hs
  split at hs
  · cases hs
    exact .refl P _
  · split at hs
    · obtain ⟨-, -, hs⟩ := Option.bind_eq_some_iff.mp hs
      exact brokerStreamFree_quiet hs
    · cases hs
      exact .refl P _

/-- A link that goes leaves its entries until its table goes with it. -/
theorem brokerRemoteDslinkFree_quiet (hs : σ.brokerRemoteDslinkFree L = some σ') : Quiet σ σ' := by
  simp only [brokerRemoteDslinkFree, Option.bind_eq_bind, Option.bind_eq_some_iff, Option.some.injEq] at hs
  obtain ⟨link, -, τ, hτ, link', -, υ, hυ, rfl⟩ := hs
  have hown : ∀ (ρ : Registry) f, QuietBut (· = L) ρ (ρ.modLink L f) := fun _ _ => .modLink (.inl rfl)
  have hfirst : QuietBut (· = L) σ τ := by
    refine (hown _ _).trans (.foldlM (fun ρ e ρ' he => ?_) hτ)
    simp only [closeRequesterEntry, Option.bind_eq_bind, Option.bind_eq_some_iff, Option.some.injEq] at he
    obtain ⟨s, -, ρ₁, hρ₁, rfl⟩ := he
    exact (requesterStreamClosed_quiet hρ₁).trans (hown _ _)
  have hsecond : QuietBut (· = L) τ υ := by
    refine (hown _ _).trans (.foldlM (fun ρ e ρ' he => ?_) hυ)
    simp only [closeResponderEntry, Option.bind_eq_bind, Option.bind_eq_some_iff, Option.some.injEq] at he
    obtain ⟨s, -, ρ₁, hρ₁, rfl⟩ := he
    exact (responderStreamClosed_quiet hρ₁).trans (hown _ _)
  have hboth := hfirst.trans hsecond
  refine ⟨hboth.next, fun l link' _ hl => ?_, hboth.dnode⟩
  obtain ⟨hne, hl⟩ := Heap.get_free_eq_some.mp hl
  exact hboth.table l link' hne hl

theorem brokerCloseLink_quiet (hs : σ.brokerCloseLink L = some σ') : Quiet σ σ' := by
  simp only [brokerCloseLink, Option.bind_eq_bind, Option.bind_eq_some_iff, Option.some.injEq] at hs
  obtain ⟨link, -, τ, hτ, rfl⟩ := hs
  exact (brokerRemoteDslinkFree_quiet hτ).trans (.modDnode fun node => ⟨rfl, .inr rfl⟩)

theorem takeRequester_quiet {old : Option (Option StreamId)} (hs : σ.takeRequester L rid = some (σ', old)) :
    QuietBut P σ σ' := by
  simp only [takeRequester, Option.bind_eq_bind, Option.bind_eq_some_iff] at hs
  obtain ⟨link, -, hs⟩ := hs
  split at hs
  · cases hs
    exact .refl P _
  · cases hs
    exact .modLink (.inr fun _ _ _ h => h)

theorem closeOld_quiet {old : Option (Option StreamId)} (hs : σ.closeOld L old = some σ') : QuietBut P σ σ' := by
  unfold closeOld at hs
  split at hs
  · simp only [Option.bind_eq_bind, Option.bind_eq_some_iff] at hs
    obtain ⟨t, -, τ, hτ, hs⟩ := hs
    exact (reqCloseCb_quiet hτ).trans (brokerStreamFree_quiet hs)
  · cases hs
    exact .refl P _

theorem brokerMsgHandleClose_quiet (hs : σ.brokerMsgHandleClose L rid = some σ') : QuietBut P σ σ' := by
  simp only [brokerMsgHandleClose, Option.bind_eq_bind, Option.bind_eq_some_iff] at hs
  obtain ⟨⟨τ, old⟩, hτ, hs⟩ := hs
  apply (takeRequester_quiet hτ).trans
  dsimp only at hs
  split at hs
  · obtain ⟨t, -, hs⟩ := Option.bind_eq_some_iff.mp hs
    exact requesterStreamClosed_quiet hs
  · cases hs
    exact .refl P _

theorem brokerHandleResp_quiet {closed : Bool} (hs : σ.brokerHandleResp L rid closed = some σ') : QuietBut P σ σ' := by
  simp only [brokerHandleResp, Option.bind_eq_bind, Option.bind_eq_some_iff] at hs
  obtain ⟨link, -, hs⟩ := hs
  split at hs
  · cases hs
    exact .refl P _
  · simp only [Option.bind_eq_some_iff] at hs
    obtain ⟨t, -, stream, -, hs⟩ := hs
    split at hs
    · cases hs
      exact .refl P _
    · simp only [Option.bind_eq_some_iff] at hs
      obtain ⟨-, -, hs⟩ := hs
      split at hs
      · obtain ⟨u, -, hs⟩ := Option.bind_eq_some_iff.mp hs
        exact brokerStreamFree_quiet hs
      · cases hs
        exact .refl P _

/-! ## Requests that stay at the broker -/

theorem setRequester_quiet (x : Option StreamId) : QuietBut P σ (σ.setRequester L rid x) :=
  .modLink (.inr fun _ _ _ h => h)

/-- A new invoke stream at its requester. -/
theorem allocInvoke_quiet (st : BrokerInvokeStream) (x : Option StreamId) :
    QuietBut P σ (({ σ with stream := σ.stream.alloc (.invoke st) } : Registry).setRequester L rid x) := by
  have halloc : QuietBut P σ { σ with stream := σ.stream.alloc (.invoke st) } := .of_rest rfl rfl
  exact halloc.trans (setRequester_quiet x)

theorem brokerAddRequesterListStream_quiet (hs : σ.brokerAddRequesterListStream L s rid = some σ') :
    QuietBut P σ σ' := by
  simp only [brokerAddRequesterListStream, Option.bind_eq_bind, Option.bind_eq_some_iff, Option.some.injEq] at hs
  obtain ⟨link, -, dsId, -, st, -, τ, hτ, rfl⟩ := hs
  have hdrop : QuietBut P σ τ := by
    unfold dropOldRid at hτ
    split at hτ
    · exact removeRequester_quiet hτ
    · cases hτ
      exact .refl P _
  have hset : ∀ st, QuietBut P τ (τ.setStream s st) := fun _ => .of_rest rfl rfl
  exact (hdrop.trans (hset _)).trans (setRequester_quiet _)

theorem brokerListSelf_quiet {n : NodeId} (hs : σ.brokerListSelf L n rid = some σ') : QuietBut P σ σ' := by
  simp only [brokerListSelf, Option.bind_eq_bind, Option.bind_eq_some_iff] at hs
  obtain ⟨node, -, hs⟩ := hs
  split at hs
  · exact brokerAddRequesterListStream_quiet hs
  · refine QuietBut.trans ?_ (brokerAddRequesterListStream_quiet hs)
    exact .of_rest rfl rfl

theorem initRemoteListStream_quiet {d : DownId} {path : CString} {respRid : Nat}
    (hs : σ.initRemoteListStream d path L rid respRid = some σ') : QuietBut P σ σ' := by
  refine QuietBut.trans ?_ (brokerAddRequesterListStream_quiet hs)
  set τ : Registry := { σ with stream := σ.stream.alloc (.list ⟨.downstream d, path, respRid, .empty⟩) } with hτ
  have hstream : QuietBut P σ τ := .of_rest rfl rfl
  have hnode : QuietBut P τ (τ.modDnode d (fun node => { node with
      listStreams := node.listStreams.set path σ.stream.next })) := .modDnode fun node => ⟨rfl, .inl rfl⟩
  exact hstream.trans hnode

theorem addListener_quiet {visit : NodeId × ListenerKind} (hs : addListener s σ visit = some σ') : QuietBut P σ σ' := by
  simp only [addListener, Option.bind_eq_bind, Option.bind_eq_some_iff] at hs
  obtain ⟨node, -, st, -, hs⟩ := hs
  split at hs
  · cases hs
    exact .of_rest rfl rfl
  · cases hs

theorem queryInvoke_quiet {visits : List (NodeId × ListenerKind)} (hs : σ.queryInvoke L rid visits = some σ') :
    QuietBut P σ σ' := by
  exact (allocInvoke_quiet _ _).trans (.foldlM (fun _ _ _ h => addListener_quiet h) hs)

theorem queryChildAdded_quiet {id : ListenerId} {visits : List (NodeId × ListenerKind)}
    (hs : σ.queryChildAdded id visits = some σ') : QuietBut P σ σ' := by
  simp only [queryChildAdded, Option.bind_eq_bind, Option.bind_eq_some_iff] at hs
  obtain ⟨listener, -, hs⟩ := hs
  split at hs
  · exact .foldlM (fun _ _ _ h => addListener_quiet h) hs
  · cases hs

/-! ## Nodes go -/

theorem freeNode_quiet {n : NodeId} (hs : σ.freeNode n = some σ') : QuietBut P σ σ' := by
  simp only [freeNode, Option.bind_eq_bind, Option.bind_eq_some_iff, Option.some.injEq] at hs
  obtain ⟨node, -, τ, hτ, rfl⟩ := hs
  have hfree : QuietBut P (σ.removeListeners n) τ := by
    unfold freeIfAny at hτ
    split at hτ
    · exact brokerStreamFree_quiet hτ
    · cases hτ
      exact .refl P _
  have hremove : QuietBut P σ (σ.removeListeners n) := .of_rest rfl rfl
  have hnode : QuietBut P τ { τ with node := τ.node.free n } := .of_rest rfl rfl
  exact (hremove.trans hfree).trans hnode

theorem freeDownstreamNode_quiet {d : DownId} (hs : σ.freeDownstreamNode d = some σ') : QuietBut P σ σ' := by
  simp only [freeDownstreamNode, Option.bind_eq_bind, Option.bind_eq_some_iff] at hs
  obtain ⟨node, -, hs⟩ := hs
  split at hs
  · cases hs
  · simp only [Option.bind_eq_some_iff, Option.some.injEq] at hs
    obtain ⟨τ, hτ, rfl⟩ := hs
    have hloop : QuietBut P σ τ := .foldlM (fun _ _ _ h => brokerStreamFree_quiet h) hτ
    refine ⟨hloop.next, hloop.table, fun e node' he => ?_⟩
    exact hloop.dnode e node' (Heap.get_free_eq_some.mp he).2

/-- The events that draw a rid. -/
def Event.draws : Event → Bool
  | .takeRid _ | .connect _ _ | .listDslink _ _ _ _ | .invoke _ _ _ => true
  | _ => false

theorem step_quiet {e : Event} (he : e.draws = false) (hs : σ.step e = some σ') : Quiet σ σ' := by
  cases e with
  | addNode path =>
    cases hs
    exact .of_rest rfl rfl
  | addDownstream =>
    cases hs
    refine ⟨rfl, fun l link _ hl => ⟨link, hl, fun _ _ h => h⟩, fun d node hd => ?_⟩
    replace hd : (σ.dnode.alloc ⟨none, 0, .empty⟩).get d = some node := hd
    rw [Heap.get_alloc] at hd
    split at hd
    · cases hd
      exact .inl rfl
    · exact .inr ⟨node, hd, rfl, rfl⟩
  | takeRid d => cases he
  | connect d dsId => cases he
  | closeLink L => exact brokerCloseLink_quiet hs
  | listSelf L n rid =>
    obtain ⟨-, -, hs⟩ := onLink_eq_some hs
    exact brokerListSelf_quiet hs
  | listDslink L d path rid => cases he
  | invoke L d rid => cases he
  | query L rid visits =>
    obtain ⟨-, -, hs⟩ := onLink_eq_some hs
    exact queryInvoke_quiet hs
  | publish L rid =>
    obtain ⟨-, -, hs⟩ := onLink_eq_some hs
    cases hs
    exact allocInvoke_quiet _ _
  | close L rid =>
    obtain ⟨-, -, hs⟩ := onLink_eq_some hs
    exact brokerMsgHandleClose_quiet hs
  | response L rid closed =>
    obtain ⟨-, -, hs⟩ := onLink_eq_some hs
    exact brokerHandleResp_quiet hs
  | childAdded id visits => exact queryChildAdded_quiet hs
  | freeNode n => exact freeNode_quiet hs
  | freeDownstream d => exact freeDownstreamNode_quiet hs

end Registry

end DSLink
