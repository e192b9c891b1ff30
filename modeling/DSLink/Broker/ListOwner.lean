import DSLink.Broker.StreamRegistry

/-!
# `Broker.ListOwner` — a list stream and the node that owns it

A list stream is shared by all its requesters and reached through its node, so it may only be freed once the last
requester is gone and the node has let go of it. Only these two pointers matter here: the tables of the links may
be in any state.

## Contents
- `SameOwner`, what leaves the list streams with their nodes, and the handlers that do.
- `Owned`, the invariant; a stream in closing misses at its node (`OwnedBut`).
- `Event.Lone` and `list_stream_lifetime`.
-/

namespace DSLink

namespace Registry

open CrossIndex

variable {σ σ' τ : Registry} {s : StreamId} {L : LinkId} {rid : Nat}

/-! ## What leaves the owners alone -/

/-- The same list streams at the same nodes, and none freed. -/
structure SameOwner (σ σ' : Registry) : Prop where
  names : σ'.ownNames = σ.ownNames
  table : σ'.ownTable = σ.ownTable
  freed : σ'.freed = σ.freed

theorem SameOwner.refl (σ : Registry) : SameOwner σ σ := ⟨rfl, rfl, rfl⟩

theorem SameOwner.trans (h : SameOwner σ τ) (h' : SameOwner τ σ') : SameOwner σ σ' :=
  ⟨h'.names.trans h.names, h'.table.trans h.table, h'.freed.trans h.freed⟩

/-- Links are no part of it. -/
theorem sameOwner_modLink (f : RemoteDSLink → RemoteDSLink) : SameOwner σ (σ.modLink L f) := ⟨rfl, rfl, rfl⟩

theorem removeRequester_sameOwner (hs : σ.removeRequester L rid = some σ') :
    SameOwner σ σ' ∧ σ'.stream = σ.stream := by
  obtain ⟨-, -, ⟨-, rfl⟩ | ⟨-, rfl⟩⟩ := removeRequester_cases hs
  · exact ⟨.refl _, rfl⟩
  · exact ⟨sameOwner_modLink _, rfl⟩

theorem removeResponder_sameOwner (hs : σ.removeResponder L rid = some σ') :
    SameOwner σ σ' ∧ σ'.stream = σ.stream := by
  obtain ⟨-, -, ⟨-, rfl⟩ | ⟨-, rfl⟩⟩ := removeResponder_cases hs
  · exact ⟨.refl _, rfl⟩
  · exact ⟨sameOwner_modLink _, rfl⟩

theorem dropListResponder_sameOwner {d : DownId} (hs : σ.dropListResponder d rid = some σ') :
    SameOwner σ σ' ∧ σ'.stream = σ.stream ∧ σ'.dnode = σ.dnode ∧ ∃ node, σ.dnode.get d = some node := by
  simp only [dropListResponder, Option.bind_eq_bind, Option.bind_eq_some_iff] at hs
  obtain ⟨node, hd, hs⟩ := hs
  split at hs
  · obtain ⟨-, -, ⟨-, rfl⟩ | ⟨-, rfl⟩⟩ := removeResponder_cases hs
    · exact ⟨.refl _, rfl, rfl, node, hd⟩
    · exact ⟨sameOwner_modLink _, rfl, rfl, node, hd⟩
  · cases hs
    exact ⟨.refl _, rfl, rfl, node, hd⟩

theorem dropResponder_sameOwner {st : BrokerStream} (hs : σ.dropResponder st = some σ') :
    SameOwner σ σ' ∧ σ'.stream = σ.stream := by
  simp only [dropResponder] at hs
  split at hs
  · split at hs
    · exact ⟨(dropListResponder_sameOwner hs).1, (dropListResponder_sameOwner hs).2.1⟩
    · obtain ⟨-, -, rfl⟩ := Option.map_eq_some_iff.mp hs
      exact ⟨.refl _, rfl⟩
  · split at hs
    · exact removeResponder_sameOwner hs
    · cases hs
      exact ⟨.refl _, rfl⟩

/-- A list stream that stays at its node. -/
theorem setList_sameOwner {st st' : BrokerListStream} (hst : σ.stream.get s = some (.list st))
    (hown : (st'.node, st'.remotePath) = (st.node, st.remotePath)) : SameOwner σ (σ.setStream s (.list st')) := by
  exact ⟨setList_ownNames hst hown, rfl, rfl⟩

/-- An invoke stream that stays one. -/
theorem setInvoke_sameOwner {st st' : BrokerInvokeStream} (hst : σ.stream.get s = some (.invoke st)) :
    SameOwner σ (σ.setStream s (.invoke st')) := by
  exact ⟨setInvoke_ownNames hst, rfl, rfl⟩

theorem allocInvoke_sameOwner (st : BrokerInvokeStream) :
    SameOwner σ { σ with stream := σ.stream.alloc (.invoke st) } := by
  refine ⟨?_, rfl, rfl⟩
  funext t k
  apply propext
  rw [alloc_ownNames]
  split
  · rename_i ht
    constructor
    · rintro ⟨x, hx, -⟩
      cases hx
    · rintro ⟨x, hx, -⟩
      rw [ht, Heap.get_next] at hx
      cases hx
  · rfl

/-- What does not touch the list streams of a downstream node. -/
theorem sameOwner_modDnode {d : DownId} {f : DownstreamNode → DownstreamNode}
    (hf : ∀ node, (f node).listStreams = node.listStreams) : SameOwner σ (σ.modDnode d f) := by
  refine ⟨rfl, ?_, rfl⟩
  funext k
  obtain ⟨ref, p⟩ := k
  cases ref with
  | regular n => rfl
  | downstream e =>
    show ((σ.dnode.modify d f).get e).bind _ = (σ.dnode.get e).bind _
    rw [Heap.get_modify]
    split
    · rename_i he
      subst he
      cases σ.dnode.get e with
      | none => rfl
      | some node => exact congrArg (fun m => m.get p) (hf node)
    · rfl

theorem freeListeners_sameOwner {data : ParsedQuery} (hs : σ.queryDestroy data = some σ') :
    SameOwner σ σ' ∧ σ'.stream = σ.stream := by
  simp only [queryDestroy, Option.bind_eq_bind, Option.bind_eq_some_iff] at hs
  obtain ⟨τ, hτ, hs⟩ := hs
  obtain ⟨listener, rfl, -⟩ := freeListeners_spec hτ
  obtain ⟨listener', rfl, -⟩ := freeListeners_spec hs
  exact ⟨⟨rfl, rfl, rfl⟩, rfl⟩

theorem addListener_sameOwner {visit : NodeId × ListenerKind} (hs : addListener s σ visit = some σ') :
    SameOwner σ σ' := by
  simp only [addListener, Option.bind_eq_bind, Option.bind_eq_some_iff] at hs
  obtain ⟨node, -, st, hst, hs⟩ := hs
  split at hs
  · cases hs
    exact ⟨(setInvoke_sameOwner (invokeStream_eq_some.mp hst)).names, rfl, rfl⟩
  · cases hs

/-! ## The invariant -/

/-- List streams and nodes point to each other, except that `s` may miss at its node. Streams were freed without
    requesters. -/
structure OwnedBut (σ : Registry) (O : StreamId → Prop) : Prop where
  owner : FiledBut σ.ownNames σ.ownTable (fun s _ => O s)
  owned : ListedBut σ.ownNames σ.ownTable nowhere
  freed : ∀ links ∈ σ.freed, links = []

abbrev Owned (σ : Registry) : Prop := σ.OwnedBut (fun _ => False)

theorem OwnedBut.same {O : StreamId → Prop} (h : σ.OwnedBut O) (hs : SameOwner σ σ') : σ'.OwnedBut O := by
  refine ⟨?_, ?_, ?_⟩
  · rw [hs.names, hs.table]
    exact h.owner
  · rw [hs.names, hs.table]
    exact h.owned
  · rw [hs.freed]
    exact h.freed

/-! ## Closing -/

/-- `broker_list_req_closed` lets the node forget the stream when nobody uses it any more. -/
theorem brokerListReqClosed_owned (h : σ.Owned) (hs : σ.brokerListReqClosed s L = some σ') :
    ∃ st link dsId, σ.listStream s = some st ∧ σ.link.get L = some link ∧ link.dsId = some dsId ∧
      σ'.stream.get s = some (.list { st with requesterLinks := st.requesterLinks.erase dsId }) ∧
      ((st.requesterLinks.erase dsId).size ≠ 0 ∧ σ'.Owned ∨
        (st.requesterLinks.erase dsId).size = 0 ∧ σ'.OwnedBut (· = s) ∧ ∀ k, σ'.ownTable k ≠ some s) := by
  simp only [brokerListReqClosed, Option.bind_eq_bind, Option.bind_eq_some_iff] at hs
  obtain ⟨st, hlist, link, hL, dsId, hid, hs⟩ := hs
  refine ⟨st, link, dsId, hlist, hL, hid, ?_⟩
  have hst := listStream_eq_some.mp hlist
  set τ := σ.setStream s (.list { st with requesterLinks := st.requesterLinks.erase dsId }) with hτ
  have hsame : SameOwner σ τ := setList_sameOwner hst rfl
  have hself : τ.stream.get s = some (.list { st with requesterLinks := st.requesterLinks.erase dsId }) :=
    Heap.get_put_self hst
  split at hs
  · rename_i hsize
    have hσ : σ' = τ := (Option.some.inj hs).symm
    rw [hσ]
    exact ⟨hself, .inl ⟨hsize, h.same hsame⟩⟩
  · rename_i hsize
    -- the node is the one that points to the stream
    have hnamed : ∀ k, σ.ownNames s k ↔ k = (st.node, st.remotePath) := by
      intro k
      constructor
      · rintro ⟨x, hx, rfl⟩
        cases hst.symm.trans hx
        rfl
      · rintro rfl
        exact ⟨st, hst, rfl⟩
    have hown := h.owner.filed ((hnamed _).mpr rfl) (fun hf => hf)
    have hclear : ∀ {υ : Registry}, SameOwner τ υ → υ.stream = τ.stream → ∀ {ρ : Registry}, ρ.stream = υ.stream →
        ρ.freed = υ.freed → ρ.ownTable = Function.update υ.ownTable (st.node, st.remotePath) none →
        ρ.OwnedBut (· = s) ∧ ∀ k, ρ.ownTable k ≠ some s := by
      intro υ hυ hυs ρ hρs hρf htable
      have hall := hsame.trans hυ
      have hnames : ρ.ownNames = σ.ownNames := by
        rw [← hall.names]
        exact ownNames_congr hρs
      rw [hall.table] at htable
      refine ⟨⟨?_, ?_, ?_⟩, ?_⟩
      · rw [hnames, htable]
        refine h.owner.erase (fun _ _ hn => hn) (fun t ht => ?_) (fun _ _ _ hf => hf.elim)
        have hfiled := h.owner.filed ht (fun hf => hf)
        exact Option.some.inj (hfiled.symm.trans hown)
      · rw [hnames, htable]
        exact h.owned.erase (fun _ _ _ hn => .inl hn) (fun _ _ _ hf => hf)
      · rw [hρf, hall.freed]
        exact h.freed
      · intro k hk
        rw [htable] at hk
        by_cases hkey : k = (st.node, st.remotePath)
        · rw [hkey, Function.update_self] at hk
          cases hk
        · rw [Function.update_of_ne hkey] at hk
          exact hkey ((hnamed k).mp ((h.owned s k hk).resolve_right (fun hf => hf)))
    split at hs
    · rename_i d hnode
      simp only [Option.bind_eq_some_iff, Option.some.injEq] at hs
      obtain ⟨υ, hυ, rfl⟩ := hs
      obtain ⟨hυsame, hυs, hυd, node, hd⟩ := dropListResponder_sameOwner hυ
      refine ⟨hυs ▸ hself, .inr ⟨not_not.mp hsize, hclear hυsame hυs rfl rfl ?_⟩⟩
      have hnode : st.node = .downstream d := hnode
      rw [hnode]
      exact ownTable_downstream (hυd ▸ hd) (fun p => AssocMap.get_erase ..)
    · rename_i n hnode
      simp only [Option.bind_eq_some_iff, Option.some.injEq] at hs
      obtain ⟨node, hn, rfl⟩ := hs
      refine ⟨hself, .inr ⟨not_not.mp hsize, hclear (.refl τ) rfl rfl rfl ?_⟩⟩
      have hnode : st.node = .regular n := hnode
      have hpath : st.remotePath = [] := by
        by_contra hp
        rw [hnode] at hown
        simp [ownTable, hp] at hown
      rw [hnode, hpath]
      exact ownTable_regular hn none

/-- Freeing a list stream that nobody uses and no node points to. -/
theorem freeList_owned {st : BrokerListStream} (h : σ.OwnedBut (· = s)) (hno : ∀ k, σ.ownTable k ≠ some s)
    (hst : σ.stream.get s = some (.list st)) (hempty : st.requesterLinks.size = 0)
    (hs : σ.brokerStreamFree s = some σ') : σ'.Owned := by
  have hentries : st.requesterLinks.entries = [] := List.length_eq_zero_iff.mp hempty
  have hvalues : st.requesterLinks.values = [] := by
    unfold AssocMap.values
    rw [hentries, List.map_nil]
  simp only [brokerStreamFree, hst, hvalues, hentries, Option.bind_eq_bind, Option.bind_some, List.foldlM_nil,
    Option.pure_def, Option.bind_eq_some_iff, Option.some.injEq] at hs
  obtain ⟨τ, hτ, rfl⟩ := hs
  obtain ⟨hsame, hstream⟩ := dropResponder_sameOwner hτ
  have hb := h.same hsame
  have hnames : ∀ t k, ({ τ with stream := τ.stream.free s, freed := [] :: τ.freed } : Registry).ownNames t k ↔
      t ≠ s ∧ τ.ownNames t k := by
    intro t k
    constructor
    · rintro ⟨x, hx, hk⟩
      obtain ⟨hts, hx⟩ := Heap.get_free_eq_some.mp hx
      exact ⟨hts, x, hx, hk⟩
    · rintro ⟨hts, x, hx, hk⟩
      exact ⟨x, Heap.get_free_eq_some.mpr ⟨hts, hx⟩, hk⟩
  refine ⟨?_, ?_, ?_⟩
  · exact hb.owner.mono (fun t k hn => ((hnames t k).mp hn).2) (fun t k hn ht _ => ((hnames t k).mp hn).1 ht)
  · refine hb.owned.mono (fun t k hk hn => .inl ((hnames t k).mpr ⟨?_, hn⟩)) (fun _ _ hf => hf)
    rintro rfl
    rw [hsame.table] at hk
    exact hno k hk
  · intro links hl
    rcases List.mem_cons.mp hl with rfl | hl
    · rfl
    · exact hb.freed links hl

theorem freeInvoke_sameOwner {st : BrokerInvokeStream} (hst : σ.stream.get s = some (.invoke st))
    (hs : σ.brokerStreamFree s = some σ') : SameOwner σ σ' := by
  simp only [brokerStreamFree, hst, Option.bind_eq_bind, Option.bind_some, Option.bind_eq_some_iff, Option.some.injEq]
    at hs
  obtain ⟨τ, hτ, υ, hυ, rfl⟩ := hs
  obtain ⟨hτsame, hτs⟩ := removeRequester_sameOwner hτ
  obtain ⟨hυsame, hυs⟩ := dropResponder_sameOwner hυ
  refine (hτsame.trans hυsame).trans ⟨?_, rfl, rfl⟩
  funext t k
  show (∃ x, (υ.stream.free s).get t = some (.list x) ∧ _) = ∃ x, υ.stream.get t = some (.list x) ∧ _
  rw [Heap.get_free]
  split
  · rename_i hts
    rw [hts, hυs, hτs, hst]
    simp
  · rfl

/-- `req_close_cb` and the free after it. -/
theorem reqCloseCb_owned (h : σ.Owned) (hs : σ.reqCloseCb s L = some τ) :
    (∃ st, τ.stream.get s = some (.invoke st) ∧ τ.Owned) ∨
      ∃ st link dsId, σ.listStream s = some st ∧ σ.link.get L = some link ∧ link.dsId = some dsId ∧
        τ.stream.get s = some (.list { st with requesterLinks := st.requesterLinks.erase dsId }) ∧
        ((st.requesterLinks.erase dsId).size ≠ 0 ∧ τ.Owned ∨
          (st.requesterLinks.erase dsId).size = 0 ∧ τ.OwnedBut (· = s) ∧ ∀ k, τ.ownTable k ≠ some s) := by
  simp only [reqCloseCb, Option.bind_eq_bind, Option.bind_eq_some_iff] at hs
  obtain ⟨st, hst, hs⟩ := hs
  cases st with
  | list st => exact .inr (brokerListReqClosed_owned h hs)
  | invoke st =>
    refine .inl ⟨st, ?_⟩
    cases hcall : st.call with
    | remote responder r =>
      simp only [hcall, Option.map_eq_some_iff] at hs
      obtain ⟨-, -, rfl⟩ := hs
      exact ⟨hst, h⟩
    | query data =>
      simp only [hcall] at hs
      obtain ⟨hsame, hstream⟩ := freeListeners_sameOwner hs
      exact ⟨hstream ▸ hst, h.same hsame⟩
    | publish =>
      simp only [hcall, Option.some.injEq] at hs
      exact hs ▸ ⟨hst, h⟩

theorem requesterStreamClosed_owned (h : σ.Owned) (hs : σ.requesterStreamClosed s L = some σ') : σ'.Owned := by
  simp only [requesterStreamClosed, Option.bind_eq_bind, Option.bind_eq_some_iff] at hs
  obtain ⟨τ, hτ, st, hst, hs⟩ := hs
  rcases reqCloseCb_owned h hτ with ⟨x, hx, ho⟩ | ⟨x, link, dsId, -, -, -, hx, hcases⟩
  · cases hst.symm.trans hx
    exact ho.same (freeInvoke_sameOwner hx hs)
  · cases hst.symm.trans hx
    simp only at hs
    rcases hcases with ⟨hsize, ho⟩ | ⟨hsize, ho, hno⟩
    · rw [if_pos (Nat.pos_of_ne_zero hsize)] at hs
      cases hs
      exact ho
    · rw [if_neg (by omega)] at hs
      exact freeList_owned ho hno hx hsize hs

theorem responderStreamClosed_owned (h : σ.Owned) (hs : σ.responderStreamClosed s = some σ') : σ'.Owned := by
  simp only [responderStreamClosed, Option.bind_eq_bind, Option.bind_eq_some_iff] at hs
  obtain ⟨st, hst, hs⟩ := hs
  split at hs
  · cases hs
    exact h
  · split at hs
    · simp only [Option.bind_eq_some_iff] at hs
      obtain ⟨-, -, hs⟩ := hs
      exact h.same (freeInvoke_sameOwner hst hs)
    · cases hs
      exact h

/-- `broker_close_link`: both loops, and the node without its link. -/
theorem brokerCloseLink_owned (h : σ.Owned) (hs : σ.brokerCloseLink L = some σ') : σ'.Owned := by
  simp only [brokerCloseLink, brokerRemoteDslinkFree, Option.bind_eq_bind, Option.bind_eq_some_iff, Option.some.injEq]
    at hs
  obtain ⟨link, -, υ, ⟨link', -, τ, hτ, link₁, -, ρ, hρ, rfl⟩, rfl⟩ := hs
  have h₁ : τ.Owned := by
    refine foldlM_invariant Owned (fun υ e _ υ' hi hs => ?_) hτ (h.same (sameOwner_modLink _))
    simp only [closeRequesterEntry, Option.bind_eq_bind, Option.bind_eq_some_iff, Option.some.injEq] at hs
    obtain ⟨s, -, ρ, hρ, rfl⟩ := hs
    exact (requesterStreamClosed_owned hi hρ).same (sameOwner_modLink _)
  have h₂ : ρ.Owned := by
    refine foldlM_invariant Owned (fun υ e _ υ' hi hs => ?_) hρ (h₁.same (sameOwner_modLink _))
    simp only [closeResponderEntry, Option.bind_eq_bind, Option.bind_eq_some_iff, Option.some.injEq] at hs
    obtain ⟨s, -, ρ, hρ, rfl⟩ := hs
    exact (responderStreamClosed_owned hi hρ).same (sameOwner_modLink _)
  have hfree : SameOwner ρ { ρ with link := ρ.link.free L } := ⟨rfl, rfl, rfl⟩
  exact (h₂.same hfree).same (sameOwner_modDnode (fun _ => rfl))

theorem takeRequester_sameOwner {old : Option (Option StreamId)} (hs : σ.takeRequester L rid = some (τ, old)) :
    SameOwner σ τ ∧ τ.stream = σ.stream ∧ (∀ link, τ.link.get L = some link → ∃ link', σ.link.get L = some link' ∧
      link'.dsId = link.dsId) ∧ ∀ s, old = some (some s) → σ.reqTable (L, rid) = some s := by
  simp only [takeRequester, Option.bind_eq_bind, Option.bind_eq_some_iff] at hs
  obtain ⟨link, hL, hs⟩ := hs
  split at hs
  · cases hs
    exact ⟨.refl _, rfl, fun link hl => ⟨link, hl, rfl⟩, fun s hs => by cases hs⟩
  · cases hs
    refine ⟨sameOwner_modLink _, rfl, ?_, fun s hs => by simp [reqTable, hL, hs]⟩
    intro link' hl
    have hl : (σ.link.modify L _).get L = some link' := hl
    rw [Heap.get_modify_self, hL] at hl
    cases hl
    exact ⟨link, hL, rfl⟩

theorem brokerMsgHandleClose_owned (h : σ.Owned) (hs : σ.brokerMsgHandleClose L rid = some σ') : σ'.Owned := by
  simp only [brokerMsgHandleClose, Option.bind_eq_bind, Option.bind_eq_some_iff] at hs
  obtain ⟨⟨τ, old⟩, hτ, hs⟩ := hs
  have ho := h.same (takeRequester_sameOwner hτ).1
  rcases old with _ | _ | s
  · cases hs
    exact ho
  · cases hs
  · exact requesterStreamClosed_owned ho hs

theorem brokerHandleResp_owned {closed : Bool} (h : σ.Owned) (hs : σ.brokerHandleResp L rid closed = some σ') :
    σ'.Owned := by
  simp only [brokerHandleResp, Option.bind_eq_bind, Option.bind_eq_some_iff] at hs
  obtain ⟨link, -, hs⟩ := hs
  split at hs
  · cases hs
    exact h
  · simp only [Option.bind_eq_some_iff] at hs
    obtain ⟨s, rfl, st, hst, hs⟩ := hs
    split at hs
    · cases hs
      exact h
    · simp only [Option.bind_eq_some_iff] at hs
      obtain ⟨-, -, hs⟩ := hs
      split at hs
      · exact h.same (freeInvoke_sameOwner hst hs)
      · cases hs
        exact h

/-! ## Opening -/

theorem brokerAddRequesterListStream_sameOwner (hs : σ.brokerAddRequesterListStream L s rid = some σ') : SameOwner σ σ' := by
  simp only [brokerAddRequesterListStream, Option.bind_eq_bind, Option.bind_eq_some_iff, Option.some.injEq] at hs
  obtain ⟨link, -, dsId, -, st, hlist, τ, hτ, rfl⟩ := hs
  have hold : SameOwner σ τ ∧ τ.stream = σ.stream := by
    unfold dropOldRid at hτ
    split at hτ
    · exact removeRequester_sameOwner hτ
    · cases hτ
      exact ⟨.refl _, rfl⟩
  have hst : τ.stream.get s = some (.list st) := hold.2 ▸ listStream_eq_some.mp hlist
  have hset : SameOwner τ (τ.setStream s (.list { st with
      requesterLinks := (st.requesterLinks.erase dsId).set dsId (L, rid) })) := setList_sameOwner hst rfl
  exact (hold.1.trans hset).trans (sameOwner_modLink _)

/-- A new list stream that its node points to. -/
theorem openList_owned {x : BrokerListStream} (h : σ.Owned) (hnone : σ.ownTable (x.node, x.remotePath) = none)
    (hstream : τ.stream = σ.stream.alloc (.list x)) (hfreed : τ.freed = σ.freed)
    (htable : τ.ownTable = Function.update σ.ownTable (x.node, x.remotePath) (some σ.stream.next)) : τ.Owned := by
  have hnames : ∀ t k, τ.ownNames t k ↔ if t = σ.stream.next then k = (x.node, x.remotePath) else σ.ownNames t k := by
    intro t k
    have halloc := alloc_ownNames (σ := σ) (s := t) (x := .list x) (k := k)
    have hsame : τ.ownNames = ({ σ with stream := σ.stream.alloc (.list x) } : Registry).ownNames := ownNames_congr hstream
    rw [hsame, halloc]
    split
    · constructor
      · rintro ⟨y, hx, rfl⟩
        cases hx
        rfl
      · rintro rfl
        exact ⟨x, rfl, rfl⟩
    · exact Iff.rfl
  refine ⟨?_, ?_, ?_⟩
  · rw [htable]
    refine h.owner.insert (fun t k hne hn => ?_) (fun t hn => ?_) (fun _ _ _ hf _ => hf)
    · have hn := (hnames t k).mp hn
      split at hn
      · exact absurd hn hne
      · exact hn
    · by_contra hts
      have hn := (hnames t _).mp hn
      rw [if_neg hts] at hn
      cases hnone.symm.trans (h.owner.filed hn (fun hf => hf))
  · rw [htable]
    refine h.owned.insert (fun t k _ hn => .inl ((hnames t k).mpr ?_)) (fun _ _ _ hf => hf) ((hnames _ _).mpr ?_)
    · rw [if_neg]
      · exact hn
      · rintro rfl
        obtain ⟨y, hx, -⟩ := hn
        cases (Heap.get_next _).symm.trans hx
    · rw [if_pos rfl]
  · rw [hfreed]
    exact h.freed

theorem brokerListSelf_owned {n : NodeId} (h : σ.Owned) (hs : σ.brokerListSelf L n rid = some σ') : σ'.Owned := by
  simp only [brokerListSelf, Option.bind_eq_bind, Option.bind_eq_some_iff] at hs
  obtain ⟨node, hn, hs⟩ := hs
  split at hs
  · exact h.same (brokerAddRequesterListStream_sameOwner hs)
  · rename_i hlist
    set τ : Registry := { σ with stream := σ.stream.alloc (.list ⟨.regular n, [], 0, .empty⟩) }
    have hnτ : τ.node.get n = some node := hn
    have ho : (τ.modNode n (fun node => { node with listStream := some σ.stream.next })).Owned :=
      openList_owned (x := ⟨.regular n, [], 0, .empty⟩) h (by simp [ownTable, hn, hlist]) rfl rfl (ownTable_regular hnτ _)
    exact ho.same (brokerAddRequesterListStream_sameOwner hs)

theorem initRemoteListStream_owned {d : DownId} {node : DownstreamNode} {path : CString} {respRid : Nat} (h : σ.Owned)
    (hd : σ.dnode.get d = some node) (hnone : node.listStreams.get path = none)
    (hs : σ.initRemoteListStream d path L rid respRid = some σ') : σ'.Owned := by
  set τ : Registry := { σ with stream := σ.stream.alloc (.list ⟨.downstream d, path, respRid, .empty⟩) }
  have hdτ : τ.dnode.get d = some node := hd
  have ho : (τ.modDnode d (fun node => { node with listStreams := node.listStreams.set path σ.stream.next })).Owned :=
    openList_owned (x := ⟨.downstream d, path, respRid, .empty⟩) h (by simp [ownTable, hd, hnone]) rfl rfl
      (ownTable_downstream hdτ (fun p => AssocMap.get_set ..))
  exact ho.same (brokerAddRequesterListStream_sameOwner hs)

theorem brokerListDslink_owned {d : DownId} {path : CString} (h : σ.Owned)
    (hs : σ.brokerListDslink L d path rid = some σ') : σ'.Owned := by
  simp only [brokerListDslink, Option.bind_eq_bind, Option.bind_eq_some_iff] at hs
  obtain ⟨node, hd, hs⟩ := hs
  split at hs
  · exact h.same (brokerAddRequesterListStream_sameOwner hs)
  · rename_i l hlist hl
    simp only [Option.bind_eq_some_iff, Option.some.injEq] at hs
    obtain ⟨υ, hυ, rfl⟩ := hs
    set τ := σ.modDnode d (fun n => { n with rid := Broker.incrRid node.rid }) with hτ
    have hdτ : τ.dnode.get d = some { node with rid := Broker.incrRid node.rid } := by simp [hτ, modDnode, hd]
    have hrid : SameOwner σ τ := sameOwner_modDnode (fun _ => rfl)
    have ho := initRemoteListStream_owned (h.same hrid) hdτ hlist hυ
    exact ho.same (sameOwner_modLink _)
  · rename_i hlist hl
    exact initRemoteListStream_owned h hd hlist hs

theorem addListeners_owned {visits : List (NodeId × ListenerKind)} (h : σ.Owned)
    (hs : visits.foldlM (addListener s) σ = some σ') : σ'.Owned :=
  foldlM_invariant Owned (fun _ _ _ _ hi hs => hi.same (addListener_sameOwner hs)) hs h

/-- The list streams of the node are entered at the new link, and stay at their node. -/
theorem brokerDslinkConnect_owned {d : DownId} {dsId : Option CString} (h : σ.Owned)
    (hs : σ.brokerDslinkConnect d dsId = some σ') : σ'.Owned := by
  simp only [brokerDslinkConnect, Option.bind_eq_bind, Option.bind_eq_some_iff] at hs
  obtain ⟨node, -, hs⟩ := hs
  have halloc : SameOwner σ { σ with link := σ.link.alloc ⟨dsId, d, .empty, .empty, false, false⟩ } := ⟨rfl, rfl, rfl⟩
  refine foldlM_invariant Owned (fun τ t _ τ' hi hs => ?_) hs
    ((h.same halloc).same (sameOwner_modDnode (fun _ => rfl)))
  simp only [brokerStreamListConnect, Option.bind_eq_bind, Option.bind_eq_some_iff, Option.some.injEq] at hs
  obtain ⟨node, -, l, -, st, hlist, rfl⟩ := hs
  have hrid : SameOwner τ (τ.modDnode d (fun n => { n with rid := Broker.incrRid node.rid })) :=
    sameOwner_modDnode (fun _ => rfl)
  have hst := listStream_eq_some.mp hlist
  have hset : SameOwner (τ.modDnode d (fun n => { n with rid := Broker.incrRid node.rid }))
      ((τ.modDnode d (fun n => { n with rid := Broker.incrRid node.rid })).setStream t
        (.list { st with responderRid := Broker.incrRid node.rid })) := setList_sameOwner hst rfl
  exact ((hi.same hrid).same hset).same (sameOwner_modLink _)

/-! ## Invokes -/

/-- The stream that has this rid on the link, if it is a list stream, has no other requester. -/
def SoleRequester (σ : Registry) (L : LinkId) (rid : Nat) : Prop :=
  ∀ s ∈ σ.reqTable (L, rid), ∀ st ∈ σ.listStream s, ∀ link ∈ σ.link.get L, ∀ dsId ∈ link.dsId,
    (st.requesterLinks.erase dsId).size = 0

theorem closeOld_owned {old : StreamId} (h : σ.Owned) (hsole : ∀ st ∈ σ.listStream old, ∀ link ∈ σ.link.get L,
      ∀ dsId ∈ link.dsId, (st.requesterLinks.erase dsId).size = 0)
    (hs : σ.closeOld L (some (some old)) = some σ') : σ'.Owned := by
  simp only [closeOld, Option.bind_eq_bind, Option.bind_some, Option.bind_eq_some_iff] at hs
  obtain ⟨τ, hτ, hs⟩ := hs
  rcases reqCloseCb_owned h hτ with ⟨x, hx, ho⟩ | ⟨x, link, dsId, hlist, hL, hid, hx, hcases⟩
  · exact ho.same (freeInvoke_sameOwner hx hs)
  · have hzero := hsole x hlist link hL dsId hid
    rcases hcases with ⟨hsize, -⟩ | ⟨hsize, ho, hno⟩
    · exact absurd hzero hsize
    · exact freeList_owned ho hno hx hsize hs

theorem brokerMsgHandleInvoke_owned {d : DownId} (h : σ.Owned)
    (hsole : ∀ node ∈ σ.dnode.get d, node.link ≠ none → σ.SoleRequester L rid)
    (hs : σ.brokerMsgHandleInvoke L d rid = some σ') : σ'.Owned := by
  simp only [brokerMsgHandleInvoke, Option.bind_eq_bind, Option.bind_eq_some_iff] at hs
  obtain ⟨node, hd, hs⟩ := hs
  have hrid : SameOwner σ (σ.modDnode d (fun n => { n with rid := Broker.incrRid node.rid })) :=
    sameOwner_modDnode (fun _ => rfl)
  split at hs
  · cases hs
    exact h.same hrid
  · rename_i l hl
    simp only [Option.bind_eq_some_iff, Option.some.injEq] at hs
    obtain ⟨-, -, ⟨τ, old⟩, hτ, ρ, hρ, rfl⟩ := hs
    have hopen : (σ.openRemote L d rid l (Broker.incrRid node.rid)).Owned :=
      ((h.same hrid).same (allocInvoke_sameOwner _)).same (sameOwner_modLink _)
    have hτ : (σ.openRemote L d rid l (Broker.incrRid node.rid)).takeRequester L rid = some (τ, old) := hτ
    obtain ⟨hsame, hstream, hdsId, hentry⟩ := takeRequester_sameOwner hτ
    refine OwnedBut.same ?_ (sameOwner_modLink _)
    rcases old with _ | _ | s
    · cases hρ
      exact hopen.same hsame
    · cases hρ
    · refine closeOld_owned (hopen.same hsame) (fun st hlist link hL dsId hid => ?_) hρ
      -- the request has changed neither the old stream nor the dsId
      have hfound : σ.reqTable (L, rid) = some s := by
        have hreq : (σ.openRemote L d rid l (Broker.incrRid node.rid)).reqTable = σ.reqTable := reqTable_same (fun _ => rfl)
        rw [← hreq]
        exact hentry s rfl
      have hlist' : σ.listStream s = some st := by
        have hget := listStream_eq_some.mp hlist
        rw [hstream] at hget
        have hget : (σ.stream.alloc (.invoke ⟨L, rid, .remote l (Broker.incrRid node.rid)⟩)).get s = some (.list st) := hget
        rw [Heap.get_alloc] at hget
        split at hget
        · cases hget
        · exact listStream_eq_some.mpr hget
      obtain ⟨link', hL', hid'⟩ := hdsId link hL
      have hagree : Heap.Rel RemoteDSLink.Agree σ.link (σ.openRemote L d rid l (Broker.incrRid node.rid)).link :=
        modLink_agree (fun _ => ⟨rfl, rfl⟩)
      obtain ⟨link'', hL'', hsame'⟩ := hagree.get_rev hL'
      exact hsole node hd (by simp [hl]) s hfound st hlist' link'' hL'' dsId (hsame'.1.symm.trans (hid'.trans hid))

/-! ## Nodes -/

theorem freeNode_owned {n : NodeId} (h : σ.Owned) (hnone : σ.ownTable (.regular n, []) = none)
    (hs : σ.freeNode n = some σ') : σ'.Owned := by
  simp only [freeNode, Option.bind_eq_bind, Option.bind_eq_some_iff, Option.some.injEq] at hs
  obtain ⟨node, hn, τ, hτ, rfl⟩ := hs
  have hlist : node.listStream = none := by simpa [ownTable, hn] using hnone
  rw [hlist] at hτ
  cases hτ
  refine h.same ⟨rfl, ?_, rfl⟩
  funext k
  obtain ⟨ref, p⟩ := k
  cases ref with
  | downstream d => rfl
  | regular m =>
    by_cases hm : m = n
    · subst hm
      simp [ownTable, removeListeners, hn, hlist]
    · simp [ownTable, removeListeners, Heap.get_free_ne hm]

theorem freeDownstreamNode_owned {d : DownId} (h : σ.Owned)
    (hnone : ∀ node ∈ σ.dnode.get d, node.listStreams.size = 0) (hs : σ.freeDownstreamNode d = some σ') : σ'.Owned := by
  simp only [freeDownstreamNode, Option.bind_eq_bind, Option.bind_eq_some_iff] at hs
  obtain ⟨node, hd, hs⟩ := hs
  have hsize := hnone node hd
  split at hs
  · cases hs
  · have hvalues : node.listStreams.values = [] := by
      unfold AssocMap.values
      rw [List.length_eq_zero_iff.mp hsize, List.map_nil]
    simp only [hvalues, List.foldlM_nil, Option.pure_def, Option.bind_some, Option.some.injEq] at hs
    subst hs
    refine h.same ⟨rfl, ?_, rfl⟩
    funext k
    obtain ⟨ref, p⟩ := k
    cases ref with
    | regular n => rfl
    | downstream e =>
      by_cases he : e = d
      · subst he
        simp [ownTable, hd, AssocMap.size_eq_zero.mp hsize p]
      · simp [ownTable, Heap.get_free_ne he]

theorem addNode_sameOwner {path : CString} : SameOwner σ { σ with node := σ.node.alloc ⟨path, none⟩ } := by
  refine ⟨rfl, ?_, rfl⟩
  funext k
  obtain ⟨ref, p⟩ := k
  cases ref with
  | downstream d => rfl
  | regular n =>
    simp only [ownTable, Heap.get_alloc]
    by_cases hn : n = σ.node.next
    · simp [hn]
    · simp [hn]

theorem addDownstream_sameOwner : SameOwner σ { σ with dnode := σ.dnode.alloc ⟨none, 0, .empty⟩ } := by
  refine ⟨rfl, ?_, rfl⟩
  funext k
  obtain ⟨ref, p⟩ := k
  cases ref with
  | regular n => rfl
  | downstream d =>
    simp only [ownTable, Heap.get_alloc]
    by_cases hd : d = σ.dnode.next
    · simp [hd]
    · simp [hd]

/-! ## Runs -/

/-- No invoke request takes the rid of a list stream that others use, and no node goes while it is listed. -/
def Event.Lone (σ : Registry) : Event → Prop
  | .invoke L d rid => ∀ node ∈ σ.dnode.get d, node.link ≠ none → σ.SoleRequester L rid
  | .freeNode n => σ.ownTable (.regular n, []) = none
  | .freeDownstream d => ∀ node ∈ σ.dnode.get d, node.listStreams.size = 0
  | _ => True

theorem step_owned {e : Event} (h : σ.Owned) (hlone : e.Lone σ) (hs : σ.step e = some σ') : σ'.Owned := by
  cases e with
  | addNode path =>
    cases hs
    exact h.same addNode_sameOwner
  | addDownstream =>
    cases hs
    exact h.same addDownstream_sameOwner
  | takeRid d =>
    obtain ⟨node, -, rfl⟩ := Option.map_eq_some_iff.mp hs
    exact h.same (sameOwner_modDnode (fun _ => rfl))
  | connect d dsId =>
    simp only [step, Option.bind_eq_bind, Option.bind_eq_some_iff] at hs
    obtain ⟨node, hd, hs⟩ := hs
    split at hs
    · cases hs
    · exact brokerDslinkConnect_owned h hs
  | closeLink L => exact brokerCloseLink_owned h hs
  | listSelf L n rid =>
    obtain ⟨-, -, hs⟩ := onLink_eq_some hs
    exact brokerListSelf_owned h hs
  | listDslink L d path rid =>
    obtain ⟨-, -, hs⟩ := onLink_eq_some hs
    exact brokerListDslink_owned h hs
  | invoke L d rid =>
    obtain ⟨-, -, hs⟩ := onLink_eq_some hs
    exact brokerMsgHandleInvoke_owned h hlone hs
  | query L rid visits =>
    obtain ⟨-, -, hs⟩ := onLink_eq_some hs
    exact addListeners_owned ((h.same (allocInvoke_sameOwner _)).same (sameOwner_modLink _)) hs
  | publish L rid =>
    obtain ⟨-, -, hs⟩ := onLink_eq_some hs
    cases hs
    exact (h.same (allocInvoke_sameOwner _)).same (sameOwner_modLink _)
  | close L rid =>
    obtain ⟨-, -, hs⟩ := onLink_eq_some hs
    exact brokerMsgHandleClose_owned h hs
  | response L rid closed =>
    obtain ⟨-, -, hs⟩ := onLink_eq_some hs
    exact brokerHandleResp_owned h hs
  | childAdded id visits =>
    simp only [step, queryChildAdded, Option.bind_eq_bind, Option.bind_eq_some_iff] at hs
    obtain ⟨listener, -, hs⟩ := hs
    split at hs
    · exact addListeners_owned h hs
    · cases hs
  | freeNode n => exact freeNode_owned h hlone hs
  | freeDownstream d => exact freeDownstreamNode_owned h hlone hs

theorem empty_owned : empty.Owned := by
  refine ⟨empty_registered.book.owner, ?_, fun links hl => nomatch hl⟩
  rintro t ⟨ref, p⟩ hk
  cases ref with
  | regular n => simp [ownTable, empty] at hk
  | downstream d => cases hk

/-- Every list stream that was freed had no requester, and what a node points to is a live list stream of this node. -/
structure Lifetimes (σ : Registry) : Prop where
  freed : ∀ links ∈ σ.freed, links = []
  node : ∀ n node s, σ.node.get n = some node → node.listStream = some s →
    ∃ st, σ.listStream s = some st ∧ st.node = .regular n
  dnode : ∀ d node path s, σ.dnode.get d = some node → node.listStreams.get path = some s →
    ∃ st, σ.listStream s = some st ∧ st.node = .downstream d ∧ st.remotePath = path

theorem OwnedBut.lifetimes (h : σ.Owned) : σ.Lifetimes where
  freed := h.freed
  node n node s hn hs := by
    obtain ⟨st, hst, hk⟩ := (h.owned s (.regular n, []) (by simp [ownTable, hn, hs])).resolve_right (fun hf => hf)
    exact ⟨st, listStream_eq_some.mpr hst, (Prod.mk.inj hk).1⟩
  dnode d node path s hd hs := by
    obtain ⟨st, hst, hk⟩ := (h.owned s (.downstream d, path) (by simp [ownTable, hd, hs])).resolve_right (fun hf => hf)
    exact ⟨st, listStream_eq_some.mpr hst, (Prod.mk.inj hk).1, (Prod.mk.inj hk).2⟩

theorem list_stream_lifetime (h : Reach step (fun σ e => Event.Lone σ e) (· = empty) σ) : σ.Lifetimes := by
  have hown : σ.Owned := by
    apply h.invariant Owned
    · rintro _ rfl
      exact empty_owned
    · intro σ e σ' hi hlone hs
      exact step_owned hi hlone hs
  exact hown.lifetimes

instance (σ : Registry) (L : LinkId) (rid : Nat) : Decidable (σ.SoleRequester L rid) :=
  inferInstanceAs (Decidable (∀ _ ∈ _, _))

instance (σ : Registry) : ∀ e, Decidable (Event.Lone σ e)
  | .invoke L d rid =>
    inferInstanceAs (Decidable (∀ node ∈ σ.dnode.get d, node.link ≠ none → σ.SoleRequester L rid))
  | .freeNode n => inferInstanceAs (Decidable (σ.ownTable (.regular n, []) = none))
  | .freeDownstream d => inferInstanceAs (Decidable (∀ node ∈ σ.dnode.get d, node.listStreams.size = 0))
  | .addNode _ | .addDownstream | .takeRid _ | .connect _ _ | .closeLink _ | .listSelf _ _ _ | .listDslink _ _ _ _
  | .query _ _ _ | .publish _ _ | .close _ _ | .response _ _ _ | .childAdded _ _ => inferInstanceAs (Decidable True)

/-- Two requesters of one node, rids used again, an invoke over a list stream of its own, and both links go. -/
theorem list_stream_lifetime_shared : ∃ σ : Registry, σ.freed.length = 5 ∧ σ.Lifetimes := by
  obtain ⟨σ, hreach, hcheck⟩ := Reach.of_guarded step (fun σ e => Event.Lone σ e) (some empty)
    (twoLinks ++ [.listSelf 0 0 1, .listSelf 1 0 1, .close 0 1, .listSelf 0 1 1, .listSelf 0 1 2, .listSelf 1 1 3,
      .close 1 1, .listDslink 0 1 (cstr "/x") 4, .invoke 0 1 4, .listDslink 1 0 (cstr "/y") 5, .listSelf 0 0 5, .closeLink 1,
      .closeLink 0])
    (fun σ => σ.freed.length = 5) (by decide)
  exact ⟨σ, by simpa using hcheck, list_stream_lifetime (hreach.of_init (fun _ hs => (Option.some.inj hs).symm))⟩

/-- Two links list one node, and one of them uses its rid again for an invoke: the stream is freed under the other,
    and the node still points to it. -/
theorem list_stream_lifetime_invoked : ∃ σ, Reach step (fun _ _ => True) (· = empty) σ ∧ ¬σ.Lifetimes := by
  obtain ⟨σ, hreach, hcheck⟩ := Reach.of_eval step (some empty)
    (twoLinks ++ [.listSelf 0 0 1, .listSelf 1 0 1, .invoke 0 1 1])
    (fun σ => (σ.node.get 0).any (fun node => node.listStream = some 0) ∧ (σ.listStream 0).isNone) (by decide)
  simp only [Bool.decide_and, Bool.and_eq_true, Option.any_eq_true, decide_eq_true_eq,
    Option.isNone_iff_eq_none] at hcheck
  obtain ⟨⟨node, hn, hs⟩, hnone⟩ := hcheck
  refine ⟨σ, hreach.of_init (fun _ hs => (Option.some.inj hs).symm), fun h => ?_⟩
  obtain ⟨st, hst, -⟩ := h.node 0 node 0 hn hs
  cases hnone.symm.trans hst

end Registry

end DSLink
