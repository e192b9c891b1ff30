import DSLink.Broker.Registered

/-!
# `Broker.Closed` — the handlers that close a stream

Closing a request, a final response and the end of a node keep the registry consistent, whatever rid they name.

## Contents
- `takeRequester_book`, the entry that a request takes out of the table of its link.
- `brokerMsgHandleClose_registered`, `brokerHandleResp_registered`.
- `freeNode_registered`, `freeDownstreamNode_registered`, and the nodes that are added.
-/

namespace DSLink

namespace Registry

open CrossIndex

variable {σ σ' τ : Registry} {X E : StreamId → Key → Prop} {O : StreamId → Prop} {s : StreamId} {L : LinkId} {rid : Nat}

/-! ## Closing -/

/-- Between two events no table is locked. -/
theorem takeRequester_spec {old : Option (Option StreamId)} (hu : σ.UnlockedBut (fun _ => False))
    (hs : σ.takeRequester L rid = some (τ, old)) : ∃ link, σ.link.get L = some link ∧
      old = link.requesterStreams.get rid ∧ σ.removeRequester L rid = some τ := by
  simp only [takeRequester, Option.bind_eq_bind, Option.bind_eq_some_iff] at hs
  obtain ⟨link, hL, hs⟩ := hs
  have hunlocked := (hu L link hL (fun hf => hf)).1
  rw [hunlocked] at hs
  cases hs
  exact ⟨link, hL, rfl, by simp [removeRequester, hL, hunlocked]⟩

/-- The entry that a request takes out of the table. -/
theorem takeRequester_book {old : StreamId} (h : σ.Registered) (hs : σ.takeRequester L rid = some (τ, some (some old))) :
    τ.Book (But nowhere old (L, rid)) nowhere (fun _ => False) ∧ Closes old σ τ ∧ τ.reqNames old (L, rid) ∧
      τ.reqTable (L, rid) = none := by
  obtain ⟨link, hL, hold, hτ⟩ := takeRequester_spec h.unlocked hs
  have hentry : σ.reqTable (L, rid) = some old := by simp [reqTable, hL, ← hold]
  have hself : σ.reqNames old (L, rid) := (h.book.requested old _ hentry).resolve_right (fun hf => hf)
  obtain ⟨hb, hc, hstream, -, hgone⟩ := removeRequester_book (s := old) h.book (Y := But nowhere old (L, rid))
    (fun _ _ hx => hx.elim) (fun t ht => by
      have hfiled := h.book.requester.filed ht (fun hf => hf)
      exact .inr ⟨Option.some.inj (hfiled.symm.trans hentry), rfl⟩) hτ
  refine ⟨hb, hc, ?_, hgone.resolve_right ?_⟩
  · obtain ⟨st, hst, hk⟩ := hself
    exact ⟨st, hstream ▸ hst, hk⟩
  · rintro ⟨link', hL', hlocked⟩
    rw [(h.unlocked L link' hL' (fun hf => hf)).1] at hlocked
    cases hlocked

/-- Nothing is there to be taken. -/
theorem takeRequester_registered (h : σ.Registered) (hs : σ.takeRequester L rid = some (τ, none)) :
    τ.Registered ∧ Closes 0 σ τ ∧ τ.reqTable (L, rid) = none := by
  obtain ⟨link, hL, hold, hτ⟩ := takeRequester_spec h.unlocked hs
  have hnone : σ.reqTable (L, rid) = none := by simp [reqTable, hL, ← hold]
  obtain ⟨hb, hc, -⟩ := removeRequester_book (s := 0) h.book (fun _ _ hx => hx) (fun t ht => by
    have hfiled := h.book.requester.filed ht (fun hf => hf)
    cases hnone.symm.trans hfiled) hτ
  exact ⟨⟨hb, hc.unlocked h.unlocked⟩, hc, hc.reqTable _ hnone⟩

theorem brokerMsgHandleClose_registered (h : σ.Registered) (hs : σ.brokerMsgHandleClose L rid = some σ') :
    σ'.Registered := by
  simp only [brokerMsgHandleClose, Option.bind_eq_bind, Option.bind_eq_some_iff] at hs
  obtain ⟨⟨τ, old⟩, hτ, hs⟩ := hs
  rcases old with _ | _ | s
  · cases hs
    exact (takeRequester_registered h hτ).1
  · cases hs
  · obtain ⟨hb, hc, hself, hnone⟩ := takeRequester_book h hτ
    have hu := hc.unlocked h.unlocked
    obtain ⟨hc', hb', -⟩ := requesterStreamClosed_book hb hself (.inr (by simp [hnone]))
      (.inr (fun link hL => (hu L link hL (fun hf => hf)).1)) hs
    exact ⟨hb', hc'.unlocked hu⟩

/-- Freeing a stream that nobody else names, out of a consistent registry. -/
theorem brokerStreamFree_registered (h : σ.Registered) (hun : σ.Unlisted s) (hs : σ.brokerStreamFree s = some σ') :
    σ'.Registered ∧ Closes s σ σ' ∧ σ'.stream.get s = none := by
  obtain ⟨hb, hc, hnone⟩ := brokerStreamFree_book
    (h.book.mono (fun _ _ _ hx => hx.elim) (fun _ _ he => he) (fun _ ht => ht.elim))
    (fun t k hts hk ht => h.book.requester.only hk ht hts)
    (fun k _ => .inr (fun link hL => (h.unlocked k.1 link hL (fun hf => hf)).1)) hun hs
  have hb' := hb.mono (fun _ _ _ hx => hx.2) (fun _ _ he => he) (fun _ ht => ht.2)
  exact ⟨⟨hb', hc.unlocked h.unlocked⟩, hc, hnone⟩

theorem brokerHandleResp_registered {closed : Bool} (h : σ.Registered)
    (hs : σ.brokerHandleResp L rid closed = some σ') : σ'.Registered := by
  simp only [brokerHandleResp, Option.bind_eq_bind, Option.bind_eq_some_iff] at hs
  obtain ⟨link, hL, hs⟩ := hs
  rcases hget : link.responderStreams.get rid with _ | _ | s
  · simp only [hget] at hs
    cases hs
    exact h
  · simp [hget] at hs
  · simp only [hget, Option.bind_some, Option.bind_eq_some_iff] at hs
    obtain ⟨st, hst, hs⟩ := hs
    cases st with
    | list st =>
      cases hs
      exact h
    | invoke st =>
      simp only [Option.bind_eq_some_iff] at hs
      obtain ⟨-, -, hs⟩ := hs
      split at hs
      · -- what is answered on a responder's rid was passed on to it, so it is no query
        obtain ⟨-, hcall⟩ := h.book.answered s (L, rid) (by simp [respTable, hL, hget])
        refine (brokerStreamFree_registered h (unlisted_of_stream h.book hst ?_) hs).1
        rintro x data hx hdata
        cases hx
        cases (hcall st hst).symm.trans hdata
      · cases hs
        exact h

/-! ## Nodes -/

theorem dropResponder_nodes {st : BrokerStream} (hs : σ.dropResponder st = some σ') :
    σ'.node = σ.node ∧ σ'.dnode = σ.dnode := by
  have hremove : ∀ {l r}, σ.removeResponder l r = some σ' → σ'.node = σ.node ∧ σ'.dnode = σ.dnode := by
    intro l r hr
    obtain ⟨-, -, ⟨-, rfl⟩ | ⟨-, rfl⟩⟩ := removeResponder_cases hr
    · exact ⟨rfl, rfl⟩
    · exact ⟨rfl, rfl⟩
  simp only [dropResponder] at hs
  split at hs
  · split at hs
    · simp only [dropListResponder, Option.bind_eq_bind, Option.bind_eq_some_iff] at hs
      obtain ⟨node, -, hs⟩ := hs
      split at hs
      · exact hremove hs
      · cases hs
        exact ⟨rfl, rfl⟩
    · obtain ⟨-, -, rfl⟩ := Option.map_eq_some_iff.mp hs
      exact ⟨rfl, rfl⟩
  · split at hs
    · exact hremove hs
    · cases hs
      exact ⟨rfl, rfl⟩

/-- Freeing a stream leaves the nodes as they are. -/
theorem brokerStreamFree_nodes (hs : σ.brokerStreamFree s = some σ') : σ'.node = σ.node ∧ σ'.dnode = σ.dnode := by
  have hremove : ∀ {τ υ : Registry} {l r}, τ.removeRequester l r = some υ → υ.node = τ.node ∧ υ.dnode = τ.dnode := by
    intro τ υ l r hr
    obtain ⟨-, -, ⟨-, rfl⟩ | ⟨-, rfl⟩⟩ := removeRequester_cases hr
    · exact ⟨rfl, rfl⟩
    · exact ⟨rfl, rfl⟩
  simp only [brokerStreamFree, Option.bind_eq_bind, Option.bind_eq_some_iff] at hs
  obtain ⟨st, -, hs⟩ := hs
  split at hs
  · simp only [Option.bind_eq_some_iff, Option.some.injEq] at hs
    obtain ⟨τ, hτ, υ, hυ, rfl⟩ := hs
    have hkept := foldlM_invariant (fun τ : Registry => τ.node = σ.node ∧ τ.dnode = σ.dnode)
      (fun τ p _ υ hi hr => ⟨(hremove hr).1.trans hi.1, (hremove hr).2.trans hi.2⟩) hτ ⟨rfl, rfl⟩
    exact ⟨(dropResponder_nodes hυ).1.trans hkept.1, (dropResponder_nodes hυ).2.trans hkept.2⟩
  · simp only [Option.bind_eq_some_iff, Option.some.injEq] at hs
    obtain ⟨τ, hτ, υ, hυ, rfl⟩ := hs
    exact ⟨(dropResponder_nodes hυ).1.trans (hremove hτ).1, (dropResponder_nodes hυ).2.trans (hremove hτ).2⟩

/-- What a node points to is a list stream, unless it was freed. -/
theorem owned_unlisted {k : NodeRef × CString} (h : σ.Registered) (hk : σ.ownTable k = some s)
    (hs : σ.stream.get s ≠ none) : σ.Unlisted s := by
  rcases h.book.owned s k hk with ⟨st, hst, -⟩ | hdead
  · exact unlisted_of_stream h.book hst (fun _ _ hx => nomatch hx)
  · exact absurd hdead.2 hs

/-- Nodes that no list stream is at can be changed at will, as long as the links stay. -/
theorem Registered.of_nodes (h : σ.Registered) (hlink : σ'.link = σ.link) (hstream : σ'.stream = σ.stream)
    (hlistener : σ'.listener = σ.listener) (hopen : ∀ d l, σ'.openLink d = some l → σ.openLink d = some l)
    (hown : ∀ k, σ'.ownTable k = σ.ownTable k ∨ σ'.ownTable k = none ∧ ∀ t, ¬σ.ownNames t k)
    (hnodeLink : ∀ d node L, σ'.dnode.get d = some node → node.link = some L →
      ∃ node, σ.dnode.get d = some node ∧ node.link = some L)
    (hlinkNode : ∀ d node L, σ.dnode.get d = some node → node.link = some L →
      ∃ node, σ'.dnode.get d = some node ∧ node.link = some L) : σ'.Registered := by
  have hreq := reqNames_congr hstream
  have hownNames := ownNames_congr hstream
  have hreqTable : σ'.reqTable = σ.reqTable := by
    unfold reqTable
    rw [hlink]
  have hrespTable : σ'.respTable = σ.respTable := by
    unfold respTable
    rw [hlink]
  refine ⟨⟨?_, ?_, ?_, ?_, ?_, ?_, ?_, ?_, ?_, ?_, ?_⟩, ?_⟩
  · rw [hreq, hreqTable]
    exact h.book.requester
  · rw [hreq, hreqTable]
    exact h.book.requested
  · rw [hrespTable]
    exact h.book.responder.mono (respNames_mono hstream hopen) (fun _ _ _ hx _ => hx)
  · rw [hownNames]
    intro t k ht
    rcases hown k with hk | ⟨-, hno⟩
    · rw [hk]
      exact h.book.owner t k ht
    · exact absurd ht (hno t)
  · rw [hownNames]
    intro t k hk
    rcases hown k with hk' | ⟨hk', -⟩
    · unfold Dead
      rw [hstream]
      exact h.book.owned t k (hk' ▸ hk)
    · exact absurd (hk'.symm.trans hk) (by simp)
  · rw [hrespTable, hstream]
    exact h.book.answered
  · rw [hlink, hstream]
    exact h.book.dsId
  · intro d node l hd hl
    obtain ⟨node, hd, hl⟩ := hnodeLink d node l hd hl
    rw [hlink]
    exact h.book.nodeLink d node l hd hl
  · intro l link hl
    obtain ⟨node, hd, hnl⟩ := h.book.linkNode l link (hlink ▸ hl)
    exact hlinkNode _ node l hd hnl
  · rw [hlistener, hstream]
    exact h.book.listeners
  · rw [hlistener, hstream]
    exact h.book.entered
  · intro l link hl
    exact h.unlocked l link (hlink ▸ hl)

theorem removeListeners_registered {n : NodeId} (h : σ.Registered) : (σ.removeListeners n).Registered := by
  refine ⟨h.book.of_listeners rfl (fun id l hl => ?_), h.unlocked⟩
  have hl : (σ.listener.get id).map _ = some l := hl
  obtain ⟨l', hl', rfl⟩ := Option.map_eq_some_iff.mp hl
  refine ⟨l', hl', ?_⟩
  split
  · exact ⟨rfl, .inl rfl⟩
  · exact ⟨rfl, .inr rfl⟩

theorem freeNode_registered {n : NodeId} (h : σ.Registered) (hs : σ.freeNode n = some σ') : σ'.Registered := by
  simp only [freeNode, Option.bind_eq_bind, Option.bind_eq_some_iff, Option.some.injEq] at hs
  obtain ⟨node, hn, τ, hτ, rfl⟩ := hs
  have h₀ := removeListeners_registered (n := n) h
  have hentry : (σ.removeListeners n).ownTable (.regular n, []) = node.listStream := by
    simp [ownTable, removeListeners, hn]
  -- the stream of the node goes first
  have hτ' : τ.Registered ∧ τ.node = σ.node ∧ ∀ t p, ¬τ.ownNames t (.regular n, p) := by
    have hnamed : ∀ {υ : Registry}, υ.Registered → υ.node = σ.node → ∀ t p, υ.ownNames t (.regular n, p) →
        node.listStream = some t := by
      intro υ hυ hnode t p ht
      have hfiled := hυ.book.owner.filed ht (fun hf => hf)
      simp only [ownTable, hnode, hn] at hfiled
      split at hfiled
      · simpa using hfiled
      · cases hfiled
    cases hl : node.listStream with
    | none =>
      simp only [hl, freeIfAny, Option.some.injEq] at hτ
      subst hτ
      refine ⟨h₀, rfl, fun t p ht => ?_⟩
      cases hl.symm.trans (hnamed h₀ rfl t p ht)
    | some s =>
      simp only [hl, freeIfAny] at hτ
      have hlive : (σ.removeListeners n).stream.get s ≠ none := by
        intro hnone
        simp [brokerStreamFree, hnone] at hτ
      obtain ⟨hreg, -, hdead⟩ := brokerStreamFree_registered h₀ (owned_unlisted h₀ (hentry.trans hl) hlive) hτ
      have hnodes := brokerStreamFree_nodes hτ
      refine ⟨hreg, hnodes.1, fun t p ht => ?_⟩
      obtain rfl := Option.some.inj (hl.symm.trans (hnamed hreg hnodes.1 t p ht))
      obtain ⟨st, hst, -⟩ := ht
      cases hdead.symm.trans hst
  obtain ⟨hreg, hnode, hno⟩ := hτ'
  refine hreg.of_nodes rfl rfl rfl (fun _ _ hl => hl) ?_ (fun d node l hd hl => ⟨node, hd, hl⟩)
    (fun d node l hd hl => ⟨node, hd, hl⟩)
  rintro ⟨ref, p⟩
  cases ref with
  | downstream d => exact .inl rfl
  | regular m =>
    by_cases hm : m = n
    · subst hm
      refine .inr ⟨?_, fun t => hno t p⟩
      simp [ownTable]
    · refine .inl ?_
      simp [ownTable, Heap.get_free_ne hm]

/-- The loop over the list streams of a downstream node without a link. -/
theorem freeListStreams_registered {d : DownId} {node : DownstreamNode} (h : σ.Registered)
    (hd : σ.dnode.get d = some node) (hs : node.listStreams.values.foldlM brokerStreamFree σ = some σ') :
    σ'.Registered ∧ σ'.dnode = σ.dnode ∧ ∀ t p, ¬σ'.ownNames t (.downstream d, p) := by
  have hloop := foldlM_rest (fun rest (τ : Registry) => τ.Registered ∧ τ.dnode = σ.dnode ∧
      (∀ t ∈ rest, t ∈ node.listStreams.values) ∧
      ∀ t ∈ node.listStreams.values, t ∈ rest ∨ τ.stream.get t = none) (fun τ t rest υ hi hυ => by
    obtain ⟨hreg, hdn, hmem, hrest⟩ := hi
    obtain ⟨p, hp⟩ := AssocMap.mem_values.mp (hmem t List.mem_cons_self)
    have hentry : τ.ownTable (.downstream d, p) = some t := by simp [ownTable, hdn, hd, hp]
    have hlive : τ.stream.get t ≠ none := by
      intro hnone
      simp [brokerStreamFree, hnone] at hυ
    obtain ⟨hreg', hc, hdead⟩ := brokerStreamFree_registered hreg (owned_unlisted hreg hentry hlive) hυ
    refine ⟨hreg', (brokerStreamFree_nodes hυ).2.trans hdn, fun u hu => hmem u (List.mem_cons_of_mem _ hu), ?_⟩
    intro u hu
    by_cases hut : u = t
    · exact .inr (hut ▸ hdead)
    · refine (hrest u hu).imp (fun hmem => (List.mem_cons.mp hmem).resolve_left hut) (fun hnone => ?_)
      rw [hc.stream u hut, hnone]) hs ⟨h, rfl, fun _ ht => ht, fun t ht => .inl ht⟩
  obtain ⟨hreg, hdn, -, hrest⟩ := hloop
  refine ⟨hreg, hdn, fun t p ht => ?_⟩
  have hfiled := hreg.book.owner.filed ht (fun hf => hf)
  simp only [ownTable, hdn, hd, Option.bind_some] at hfiled
  obtain ⟨st, hst, -⟩ := ht
  have hdead := (hrest t (AssocMap.mem_values.mpr ⟨p, hfiled⟩)).resolve_left (by simp)
  cases hdead.symm.trans hst

theorem freeDownstreamNode_registered {d : DownId} (h : σ.Registered) (hs : σ.freeDownstreamNode d = some σ') :
    σ'.Registered := by
  simp only [freeDownstreamNode, Option.bind_eq_bind, Option.bind_eq_some_iff] at hs
  obtain ⟨node, hd, hs⟩ := hs
  split at hs
  · cases hs
  · rename_i hlink
    simp only [Option.bind_eq_some_iff, Option.some.injEq] at hs
    obtain ⟨τ, hτ, rfl⟩ := hs
    obtain ⟨hreg, hdn, hno⟩ := freeListStreams_registered h hd hτ
    have hnone : node.link = none := by simpa using hlink
    have hother : ∀ e node' l, τ.dnode.get e = some node' → node'.link = some l → e ≠ d := by
      rintro e node' l he hl rfl
      cases hd.symm.trans (hdn ▸ he)
      cases hnone.symm.trans hl
    refine hreg.of_nodes rfl rfl rfl ?_ ?_ ?_ ?_
    · intro e l hl
      obtain ⟨node', link, he, hnl, hL, hunlocked⟩ := openLink_eq_some.mp hl
      exact openLink_eq_some.mpr ⟨node', link, (Heap.get_free_eq_some.mp he).2, hnl, hL, hunlocked⟩
    · rintro ⟨ref, p⟩
      cases ref with
      | regular n => exact .inl rfl
      | downstream e =>
        by_cases he : e = d
        · subst he
          exact .inr ⟨by simp [ownTable], fun t => hno t p⟩
        · exact .inl (by simp [ownTable, Heap.get_free_ne he])
    · intro e node' l he hl
      exact ⟨node', (Heap.get_free_eq_some.mp he).2, hl⟩
    · intro e node' l he hl
      exact ⟨node', Heap.get_free_eq_some.mpr ⟨hother e node' l he hl, he⟩, hl⟩

/-- A new node is empty. -/
theorem addNode_registered {path : CString} (h : σ.Registered) :
    ({ σ with node := σ.node.alloc ⟨path, none⟩ } : Registry).Registered := by
  refine h.of_nodes rfl rfl rfl (fun _ _ hl => hl) ?_ (fun d node l hd hl => ⟨node, hd, hl⟩)
    (fun d node l hd hl => ⟨node, hd, hl⟩)
  rintro ⟨ref, p⟩
  cases ref with
  | downstream d => exact .inl rfl
  | regular n =>
    refine .inl ?_
    simp only [ownTable, Heap.get_alloc]
    by_cases hn : n = σ.node.next
    · simp [hn]
    · simp [hn]

theorem addDownstream_registered (h : σ.Registered) :
    ({ σ with dnode := σ.dnode.alloc ⟨none, 0, .empty⟩ } : Registry).Registered := by
  have hget : ∀ d node l, (σ.dnode.alloc ⟨none, 0, .empty⟩).get d = some node → node.link = some l →
      σ.dnode.get d = some node := by
    intro d node l hd hl
    rw [Heap.get_alloc] at hd
    split at hd
    · cases hd
      cases hl
    · exact hd
  refine h.of_nodes rfl rfl rfl ?_ ?_ (fun d node l hd hl => ⟨node, hget d node l hd hl, hl⟩)
    (fun d node l hd hl => ⟨node, Heap.get_alloc_of_get hd, hl⟩)
  · intro d l hl
    obtain ⟨node, link, hd, hnl, hL, hunlocked⟩ := openLink_eq_some.mp hl
    exact openLink_eq_some.mpr ⟨node, link, hget d node l hd hnl, hnl, hL, hunlocked⟩
  · rintro ⟨ref, p⟩
    cases ref with
    | regular n => exact .inl rfl
    | downstream d =>
      refine .inl ?_
      simp only [ownTable, Heap.get_alloc]
      by_cases hd : d = σ.dnode.next
      · simp [hd]
      · simp [hd]

end Registry

end DSLink
