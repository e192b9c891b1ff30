import DSLink.Broker.QueryWalk

/-!
# `Broker.QueryClose` — what a closed query leaves behind

A query frees the listeners its two maps remember, and a map remembers one listener for each path. So all is freed
as long as no second listener is remembered for a path at which the first one is still in a list: the first one is
lost then and stays where it is. Two nodes have one path when a slash is part of a name.

## Contents
- `Owned`: every listener in a list is the one its query remembers for the path of the node.
- `attachAll_owned`, `brokerNodeFree_owned`, `queryDestroy_owned`: the operations keep that.
- `Event.fresh`, `closed_query_leaves_nothing`.
- `closed_query_leaves_listener`: two nodes with one path.
-/

namespace DSLink.Query

/-- What the maps remember and what the lists hold. -/
structure Owned (σ : State) : Prop where
  /-- What is in a list is alive and knows its list. -/
  listed : ∀ n node cb l, σ.node.get n = some node → l ∈ node.dispatcher cb →
    ∃ x, σ.listener.get l = some x ∧ x.callback = cb ∧ x.list = some n
  /-- What knows its list is in it, and its query remembers it. -/
  linked : ∀ l x n, σ.listener.get l = some x → x.list = some n →
    ∃ node stream, σ.node.get n = some node ∧ l ∈ node.dispatcher x.callback ∧
      σ.stream.get x.data = some stream ∧ (stream.listeners x.callback).get node.path = some l
  nodup : ∀ n node cb, σ.node.get n = some node → (node.dispatcher cb).Nodup
  /-- What a query remembers is alive and its own. -/
  remembered : ∀ st stream cb q l, σ.stream.get st = some stream → (stream.listeners cb).get q = some l →
    ∃ x, σ.listener.get l = some x ∧ x.callback = cb ∧ x.data = st
  /-- It is remembered for one path. -/
  inj : ∀ st stream cb q q' l, σ.stream.get st = some stream → (stream.listeners cb).get q = some l →
    (stream.listeners cb).get q' = some l → q = q'

/-- The query has a listener in a list that it remembers for the path. -/
def linkedAt (σ : State) (st : StreamId) (cb : Callback) (path : CString) : Bool :=
  (((σ.stream.get st).bind (fun stream => (stream.listeners cb).get path)).bind (fun l => σ.listener.get l)).any
    (fun x => x.list.isSome)

/-- The path of a node. -/
def pathOf (σ : State) (n : NodeId) : CString := ((σ.node.get n).map Node.path).getD []

/-- What a visit is remembered under. -/
def keyOf (σ : State) (v : NodeId × Callback) : CString × Callback := (pathOf σ v.1, v.2)

section

variable {σ σ' τ : State} {st st' : StreamId} {cb cb' : Callback} {n m : NodeId} {node : Node} {stream : QueryStream}
  {l : ListenerId} {x : Listener} {q : CString}

theorem pathOf_eq (hn : σ.node.get n = some node) : pathOf σ n = node.path := by
  unfold pathOf
  rw [hn]
  rfl

theorem pathOf_congr (h : SameShape σ τ) (n : NodeId) : pathOf τ n = pathOf σ n := by
  have h1 := congrArg (Option.map Prod.fst) (h n)
  rw [Option.map_map, Option.map_map] at h1
  exact congrArg (fun o => Option.getD o []) h1

theorem path_setDispatcher (node : Node) (cb : Callback) (l : List ListenerId) :
    (node.setDispatcher cb l).path = node.path := by
  cases cb <;> rfl

theorem listeners_remember (stream : QueryStream) (cb cb' : Callback) (path : CString) (l : ListenerId) :
    (stream.remember cb path l).listeners cb' =
      if cb' = cb then (stream.listeners cb).set path l else stream.listeners cb' := by
  cases cb <;> cases cb' <;> rfl

theorem linkedAt_eq (hst : σ.stream.get st = some stream) (hl : (stream.listeners cb).get q = some l)
    (hx : σ.listener.get l = some x) : linkedAt σ st cb q = x.list.isSome := by
  unfold linkedAt
  rw [hst, Option.bind_some, hl, Option.bind_some, hx]
  rfl

/-- The nodes after one list of a node was changed. -/
theorem get_setDispatcher {N : Heap Node} {f : Node → Node} {g : List ListenerId → List ListenerId} {y : Node}
    (hf : ∀ a, N.get n = some a → f a = a.setDispatcher cb (g (a.dispatcher cb)))
    (hy : (N.modify n f).get m = some y) : ∃ y0, N.get m = some y0 ∧ y.path = y0.path ∧
      ∀ cb', y.dispatcher cb' = if m = n ∧ cb' = cb then g (y0.dispatcher cb') else y0.dispatcher cb' := by
  obtain ⟨y0, hy0, rfl⟩ := Heap.get_modify_eq_some.mp hy
  refine ⟨y0, hy0, ?_⟩
  by_cases hm : m = n
  · rw [if_pos hm, hf y0 (hm ▸ hy0)]
    refine ⟨path_setDispatcher _ _ _, fun cb' => ?_⟩
    rw [dispatcher_setDispatcher]
    by_cases hcb : cb' = cb
    · rw [if_pos hcb, if_pos ⟨hm, hcb⟩, hcb]
    · rw [if_neg hcb, if_neg (fun h => hcb h.2)]
  · rw [if_neg hm]
    exact ⟨rfl, fun cb' => (if_neg (fun h => hm h.1)).symm⟩

/-! ## Attaching -/

/-- What attaching a listener changes: it is at the end of the list of the node, and remembered for its path. -/
structure Attached (σ σ' : State) (st : StreamId) (n : NodeId) (cb : Callback) : Prop where
  node : ∀ m y, σ'.node.get m = some y → ∃ y0, σ.node.get m = some y0 ∧ y.path = y0.path ∧ ∀ cb', y.dispatcher cb' =
    if m = n ∧ cb' = cb then y0.dispatcher cb' ++ [σ.listener.next] else y0.dispatcher cb'
  stream : ∀ st' z, σ'.stream.get st' = some z → ∃ z0, σ.stream.get st' = some z0 ∧ ∀ cb' q,
    (z.listeners cb').get q =
      if st' = st ∧ cb' = cb ∧ q = pathOf σ n then some σ.listener.next else (z0.listeners cb').get q
  listener : σ'.listener = σ.listener.alloc ⟨cb, st, some n⟩
  nodes : ∀ m y0, σ.node.get m = some y0 → ∃ y, σ'.node.get m = some y
  streams : ∀ st' z0, σ.stream.get st' = some z0 → ∃ z, σ'.stream.get st' = some z
  here : (∃ y0, σ.node.get n = some y0) ∧ ∃ z0, σ.stream.get st = some z0

theorem attached_of_attach (h : σ.attach st n cb = some σ') : Attached σ σ' st n cb := by
  simp only [State.attach, Option.bind_eq_bind, Option.bind_eq_some_iff, Option.some.injEq] at h
  obtain ⟨node, hn, stream, hst, rfl⟩ := h
  refine ⟨?_, ?_, rfl, fun m y0 hy0 => ⟨_, Heap.get_modify_of_get hy0⟩,
    fun st' z0 hz0 => ⟨_, Heap.get_modify_of_get hz0⟩, ⟨node, hn⟩, ⟨stream, hst⟩⟩
  · exact fun m y => get_setDispatcher (g := fun l => l ++ [σ.listener.next]) (fun _ _ => rfl)
  · intro st' z hz
    obtain ⟨z0, hz0, rfl⟩ := Heap.get_modify_eq_some.mp hz
    refine ⟨z0, hz0, fun cb' q => ?_⟩
    rw [pathOf_eq hn]
    by_cases hs : st' = st
    · rw [if_pos hs, listeners_remember]
      by_cases hcb : cb' = cb
      · rw [if_pos hcb, AssocMap.get_set]
        simp only [hs, hcb, true_and]
      · rw [if_neg hcb, if_neg (fun h => hcb h.2.1)]
    · rw [if_neg hs, if_neg (fun h => hs h.1)]

/-- A new listener for a path whose remembered listener, if any, is in no list. -/
theorem attach_owned (hσ : Owned σ) (h : σ.attach st n cb = some σ') (hfree : linkedAt σ st cb (pathOf σ n) = false) :
    Owned σ' := by
  have hat := attached_of_attach h
  have hnew : σ'.listener.get σ.listener.next = some ⟨cb, st, some n⟩ := by
    rw [hat.listener]
    exact Heap.get_alloc_next _ _
  have hlis : ∀ {l : ListenerId} {x : Listener}, σ.listener.get l = some x → σ'.listener.get l = some x := by
    intro l x hl
    rw [hat.listener]
    exact Heap.get_alloc_of_get hl
  refine ⟨?_, ?_, ?_, ?_, ?_⟩
  · intro m y cb' l hm hl
    obtain ⟨y0, hy0, -, hd⟩ := hat.node m y hm
    rw [hd] at hl
    have hold : l ∈ y0.dispatcher cb' → ∃ x, σ'.listener.get l = some x ∧ x.callback = cb' ∧ x.list = some m := by
      intro hl
      obtain ⟨x, hx, hrest⟩ := hσ.listed m y0 cb' l hy0 hl
      exact ⟨x, hlis hx, hrest⟩
    split at hl
    · rename_i hhere
      rcases List.mem_append.mp hl with hl | hl
      · exact hold hl
      · rw [List.mem_singleton.mp hl]
        exact ⟨_, hnew, hhere.2.symm, congrArg some hhere.1.symm⟩
    · exact hold hl
  · intro l x m hl hx
    rw [hat.listener, Heap.get_alloc] at hl
    split at hl
    · -- the new listener
      rename_i hnext
      cases hl
      cases hx
      obtain ⟨⟨y0, hy0⟩, z0, hz0⟩ := hat.here
      obtain ⟨y, hy⟩ := hat.nodes n y0 hy0
      obtain ⟨z, hz⟩ := hat.streams st z0 hz0
      obtain ⟨y1, hy1, hpath, hd⟩ := hat.node n y hy
      cases hy0.symm.trans hy1
      obtain ⟨z1, hz1, hget⟩ := hat.stream st z hz
      refine ⟨y, z, hy, ?_, hz, ?_⟩
      · rw [hd, if_pos ⟨rfl, rfl⟩]
        exact List.mem_append_right _ (List.mem_singleton.mpr hnext)
      · rw [hget, if_pos ⟨rfl, rfl, hpath.trans (pathOf_eq hy0).symm⟩, hnext]
    · obtain ⟨y0, z0, hy0, hmem, hz0, hmap⟩ := hσ.linked l x m hl hx
      obtain ⟨y, hy⟩ := hat.nodes m y0 hy0
      obtain ⟨z, hz⟩ := hat.streams x.data z0 hz0
      obtain ⟨y1, hy1, hpath, hd⟩ := hat.node m y hy
      cases hy0.symm.trans hy1
      obtain ⟨z1, hz1, hget⟩ := hat.stream x.data z hz
      cases hz0.symm.trans hz1
      refine ⟨y, z, hy, ?_, hz, ?_⟩
      · rw [hd]
        split
        · exact List.mem_append_left _ hmem
        · exact hmem
      · rw [hget, hpath, if_neg]
        · exact hmap
        · -- the listener that would be forgotten is in no list
          rintro ⟨hs, hcb, hq⟩
          rw [hs] at hz0
          rw [hcb, hq] at hmap
          have h1 := linkedAt_eq hz0 hmap hl
          rw [hfree, hx] at h1
          cases h1
  · intro m y cb' hm
    obtain ⟨y0, hy0, -, hd⟩ := hat.node m y hm
    have hold := hσ.nodup m y0 cb' hy0
    rw [hd]
    split
    · refine hold.append (List.nodup_singleton _) ?_
      intro l hl hl'
      obtain ⟨x, hx, -⟩ := hσ.listed m y0 cb' l hy0 hl
      exact absurd (List.mem_singleton.mp hl') (Heap.ne_next_of_get hx)
    · exact hold
  · intro st' z cb' q l hz hl
    obtain ⟨z0, hz0, hget⟩ := hat.stream st' z hz
    rw [hget] at hl
    split at hl
    · rename_i hhere
      cases hl
      exact ⟨_, hnew, hhere.2.1.symm, hhere.1.symm⟩
    · obtain ⟨x, hx, hrest⟩ := hσ.remembered st' z0 cb' q l hz0 hl
      exact ⟨x, hlis hx, hrest⟩
  · intro st' z cb' q q' l hz hl hl'
    obtain ⟨z0, hz0, hget⟩ := hat.stream st' z hz
    have hold : ∀ q, (z0.listeners cb').get q ≠ some σ.listener.next := by
      intro q hq
      obtain ⟨x, hx, -⟩ := hσ.remembered st' z0 cb' q _ hz0 hq
      exact Heap.ne_next_of_get hx rfl
    rw [hget] at hl hl'
    split at hl
    · rename_i hhere
      cases hl
      split at hl'
      · rename_i hhere'
        exact hhere.2.2.trans hhere'.2.2.symm
      · exact absurd hl' (hold q')
    · split at hl'
      · cases hl'
        exact absurd hl (hold q)
      · exact hσ.inj st' z0 cb' q q' l hz0 hl hl'

/-- The other paths and queries keep what they remember. -/
theorem linkedAt_attach (hσ : Owned σ) (h : σ.attach st n cb = some σ')
    (hne : (st', cb', q) ≠ (st, cb, pathOf σ n)) : linkedAt σ' st' cb' q = linkedAt σ st' cb' q := by
  have hat := attached_of_attach h
  have hmap : (σ'.stream.get st').bind (fun stream => (stream.listeners cb').get q) =
      (σ.stream.get st').bind (fun stream => (stream.listeners cb').get q) := by
    cases hz0 : σ.stream.get st' with
    | none =>
      cases hz : σ'.stream.get st' with
      | none => rfl
      | some z =>
        obtain ⟨z0, hz0', -⟩ := hat.stream st' z hz
        rw [hz0] at hz0'
        cases hz0'
    | some z0 =>
      obtain ⟨z, hz⟩ := hat.streams st' z0 hz0
      obtain ⟨z1, hz1, hget⟩ := hat.stream st' z hz
      cases hz0.symm.trans hz1
      have hno : ¬(st' = st ∧ cb' = cb ∧ q = pathOf σ n) := by
        rintro ⟨rfl, rfl, rfl⟩
        exact hne rfl
      rw [hz, Option.bind_some, Option.bind_some, hget, if_neg hno]
  unfold linkedAt
  rw [hmap, hat.listener]
  cases hl : (σ.stream.get st').bind (fun stream => (stream.listeners cb').get q) with
  | none => rfl
  | some l =>
    obtain ⟨z, hz, hzl⟩ := Option.bind_eq_some_iff.mp hl
    obtain ⟨x, hx, -⟩ := hσ.remembered st' z cb' q l hz hzl
    rw [Option.bind_some, Option.bind_some, hx, Heap.get_alloc_of_get hx]

/-- A walk over nodes with different paths that the query is not linked at. -/
theorem attachAll_owned {v : List (NodeId × Callback)} (hσ : Owned σ) (h : attachAll st v σ = some σ')
    (hnodup : (v.map (keyOf σ)).Nodup) (hfree : ∀ e ∈ v, linkedAt σ st e.2 (pathOf σ e.1) = false) :
    Owned σ' ∧ ∀ st' cb q, st' ≠ st → linkedAt σ' st' cb q = linkedAt σ st' cb q := by
  induction v generalizing σ with
  | nil =>
    cases h
    exact ⟨hσ, fun _ _ _ _ => rfl⟩
  | cons e v ih =>
    simp only [attachAll, List.foldlM_cons, Option.bind_eq_bind, Option.bind_eq_some_iff] at h
    obtain ⟨τ, hτ, h⟩ := h
    have h1 := attach_owned hσ hτ (hfree e List.mem_cons_self)
    have hshape := (attach_shape hτ).1
    rw [List.map_cons, List.nodup_cons] at hnodup
    have hkeys : v.map (keyOf τ) = v.map (keyOf σ) := by
      apply List.map_congr_left
      intro e' _
      rw [keyOf, keyOf, pathOf_congr hshape]
    obtain ⟨h2, h3⟩ := ih h1 h (hkeys ▸ hnodup.2) (fun e' he' => by
      rw [pathOf_congr hshape, linkedAt_attach hσ hτ]
      · exact hfree e' (List.mem_cons_of_mem _ he')
      · intro heq
        simp only [Prod.mk.injEq, true_and] at heq
        apply hnodup.1
        refine List.mem_map.mpr ⟨e', he', ?_⟩
        rw [keyOf, keyOf, heq.1, heq.2])
    refine ⟨h2, fun st' cb q hne => ?_⟩
    rw [h3 st' cb q hne, linkedAt_attach hσ hτ]
    exact fun heq => hne (Prod.mk.inj heq).1

/-! ## Removing nodes -/

/-- Nodes and listeners may go, and a listener may be taken out of its list; nothing else changes. -/
structure Shrinks (σ τ : State) : Prop where
  node : ∀ m y, τ.node.get m = some y → ∃ x, σ.node.get m = some x ∧ y.path = x.path ∧
    ∀ cb, y.dispatcher cb = x.dispatcher cb
  listener : ∀ l y, τ.listener.get l = some y → ∃ x, σ.listener.get l = some x ∧ y.callback = x.callback ∧
    y.data = x.data ∧ (y.list = x.list ∨ y.list = none)

theorem Shrinks.refl (σ : State) : Shrinks σ σ where
  node := fun _ y hy => ⟨y, hy, rfl, fun _ => rfl⟩
  listener := fun _ y hy => ⟨y, hy, rfl, rfl, .inl rfl⟩

theorem Shrinks.trans {υ : State} (h1 : Shrinks σ τ) (h2 : Shrinks τ υ) : Shrinks σ υ where
  node := by
    intro m z hz
    obtain ⟨y, hy, hp, hd⟩ := h2.node m z hz
    obtain ⟨x, hx, hp', hd'⟩ := h1.node m y hy
    exact ⟨x, hx, hp.trans hp', fun cb => (hd cb).trans (hd' cb)⟩
  listener := by
    intro l z hz
    obtain ⟨y, hy, hc, hd, hl⟩ := h2.listener l z hz
    obtain ⟨x, hx, hc', hd', hl'⟩ := h1.listener l y hy
    refine ⟨x, hx, hc.trans hc', hd.trans hd', ?_⟩
    rcases hl with hl | hl
    · exact hl'.imp hl.trans hl.trans
    · exact .inr hl

/-- A change of the tree that leaves the paths and the lists alone. -/
theorem owned_modNode (hσ : Owned σ) {f : Node → Node} (hp : ∀ x, (f x).path = x.path)
    (hd : ∀ x cb, (f x).dispatcher cb = x.dispatcher cb) : Owned (σ.modNode n f) ∧ Shrinks σ (σ.modNode n f) := by
  have hnode : ∀ m y, (σ.node.modify n f).get m = some y → ∃ x, σ.node.get m = some x ∧ y.path = x.path ∧
      ∀ cb, y.dispatcher cb = x.dispatcher cb := by
    intro m y hy
    rw [Heap.get_modify] at hy
    split at hy
    · rename_i hm
      obtain ⟨x, hx, rfl⟩ := Option.map_eq_some_iff.mp hy
      exact ⟨x, hm ▸ hx, hp x, hd x⟩
    · exact ⟨y, hy, rfl, fun _ => rfl⟩
  refine ⟨⟨?_, ?_, ?_, hσ.remembered, hσ.inj⟩, ⟨hnode, (Shrinks.refl σ).listener⟩⟩
  · intro m y cb l hm hl
    obtain ⟨x, hx, -, hdx⟩ := hnode m y hm
    exact hσ.listed m x cb l hx (hdx cb ▸ hl)
  · intro l x m hl hx
    obtain ⟨y0, z, hy0, hmem, hz, hmap⟩ := hσ.linked l x m hl hx
    obtain ⟨y, hy⟩ : ∃ y, (σ.node.modify n f).get m = some y := ⟨_, Heap.get_modify_of_get hy0⟩
    obtain ⟨y1, hy1, hpath, hd1⟩ := hnode m y hy
    cases hy0.symm.trans hy1
    exact ⟨y, z, hy, (hd1 x.callback) ▸ hmem, hz, hpath ▸ hmap⟩
  · intro m y cb hm
    obtain ⟨x, hx, -, hdx⟩ := hnode m y hm
    rw [hdx]
    exact hσ.nodup m x cb hx

/-- Out of their lists. -/
theorem get_listenerRemoveAll (ls : List ListenerId) (σ : State) (l : ListenerId) :
    (σ.listenerRemoveAll ls).listener.get l =
      if l ∈ ls then (σ.listener.get l).map (fun x => { x with list := none }) else σ.listener.get l := by
  unfold State.listenerRemoveAll
  induction ls generalizing σ with
  | nil => rfl
  | cons l' ls ih =>
    rw [List.foldl_cons, ih]
    show (if l ∈ ls then ((σ.listener.modify l' _).get l).map _ else (σ.listener.modify l' _).get l) = _
    rw [Heap.get_modify]
    by_cases hl : l = l'
    · subst hl
      rw [if_pos rfl, if_pos List.mem_cons_self]
      split
      · rw [Option.map_map]
        rfl
      · rfl
    · simp only [List.mem_cons, hl, false_or, if_false]

theorem listenerRemoveAll_node (ls : List ListenerId) (σ : State) :
    (σ.listenerRemoveAll ls).node = σ.node ∧ (σ.listenerRemoveAll ls).stream = σ.stream := by
  unfold State.listenerRemoveAll
  induction ls generalizing σ with
  | nil => exact ⟨rfl, rfl⟩
  | cons l ls ih => exact ih _

/-- The listeners that go with a node. -/
theorem mem_dispatchers {node : Node} : l ∈ node.onValueUpdate ++ node.onChildAdded ↔ ∃ cb, l ∈ node.dispatcher cb := by
  rw [List.mem_append]
  constructor
  · rintro (h | h)
    · exact ⟨.valueUpdate, h⟩
    · exact ⟨.childAdded, h⟩
  · rintro ⟨cb, h⟩
    cases cb with
    | childAdded => exact .inr h
    | valueUpdate => exact .inl h

theorem dropNode_stream (σ : State) (n : NodeId) (node : Node) : (σ.dropNode n node).stream = σ.stream := by
  have h1 : (σ.dropNode n node).stream
      = ((σ.listenerRemoveAll node.onValueUpdate).listenerRemoveAll node.onChildAdded).stream := by
    unfold State.dropNode
    cases node.parent <;> rfl
  rw [h1, (listenerRemoveAll_node _ _).2, (listenerRemoveAll_node _ _).2]

/-- The listeners of the node are out of their lists, the others are as before. -/
theorem dropNode_listener (σ : State) (n : NodeId) (node : Node) (l : ListenerId) : (σ.dropNode n node).listener.get l =
    if l ∈ node.onValueUpdate ++ node.onChildAdded then (σ.listener.get l).map (fun x => { x with list := none })
    else σ.listener.get l := by
  have h1 : (σ.dropNode n node).listener
      = ((σ.listenerRemoveAll node.onValueUpdate).listenerRemoveAll node.onChildAdded).listener := by
    unfold State.dropNode
    cases node.parent <;> rfl
  rw [h1, get_listenerRemoveAll, get_listenerRemoveAll]
  by_cases hv : l ∈ node.onValueUpdate
  · rw [if_pos hv, if_pos (List.mem_append_left _ hv), Option.map_map]
    split <;> rfl
  · rw [if_neg hv]
    simp only [List.mem_append, hv, false_or]

/-- What is live afterwards was live before, and was taken out of its list or left in it. -/
theorem dropNode_listener_eq_some {y : Listener} (hy : (σ.dropNode n node).listener.get l = some y) :
    ∃ x, σ.listener.get l = some x ∧ y.callback = x.callback ∧ y.data = x.data ∧
      (l ∈ node.onValueUpdate ++ node.onChildAdded ∧ y.list = none ∨
        l ∉ node.onValueUpdate ++ node.onChildAdded ∧ y.list = x.list) := by
  rw [dropNode_listener] at hy
  split at hy
  · rename_i h
    obtain ⟨x, hx, rfl⟩ := Option.map_eq_some_iff.mp hy
    exact ⟨x, hx, rfl, rfl, .inl ⟨h, rfl⟩⟩
  · rename_i h
    exact ⟨y, hy, rfl, rfl, .inr ⟨h, rfl⟩⟩

/-- The other nodes keep their paths and lists. -/
theorem dropNode_node (σ : State) (n : NodeId) (node : Node) (m : NodeId) :
    ((σ.dropNode n node).node.get m).map (fun y => (y.path, y.onValueUpdate, y.onChildAdded)) =
      if m = n then none else (σ.node.get m).map (fun y => (y.path, y.onValueUpdate, y.onChildAdded)) := by
  have h0 : ((σ.listenerRemoveAll node.onValueUpdate).listenerRemoveAll node.onChildAdded).node = σ.node := by
    rw [(listenerRemoveAll_node _ _).1, (listenerRemoveAll_node _ _).1]
  unfold State.dropNode
  cases node.parent with
  | none =>
    change Option.map _ ((Heap.free (((σ.listenerRemoveAll _).listenerRemoveAll _).node) n).get m) = _
    rw [h0, Heap.get_free]
    split <;> rfl
  | some p =>
    change Option.map _ ((Heap.free ((((σ.listenerRemoveAll _).listenerRemoveAll _).node).modify p _) n).get m) = _
    rw [h0, Heap.get_free]
    split
    · rfl
    · rw [Heap.get_modify]
      split
      · rename_i hp
        rw [hp, Option.map_map]
        rfl
      · rfl

theorem dropNode_node_eq_some {y : Node} (hy : (σ.dropNode n node).node.get m = some y) : m ≠ n ∧
    ∃ y0, σ.node.get m = some y0 ∧ y.path = y0.path ∧ ∀ cb, y.dispatcher cb = y0.dispatcher cb := by
  have h1 := dropNode_node σ n node m
  rw [hy] at h1
  split at h1
  · cases h1
  · rename_i hne
    obtain ⟨y0, hy0, he⟩ := Option.map_eq_some_iff.mp h1.symm
    simp only [Prod.mk.injEq] at he
    refine ⟨hne, y0, hy0, he.1.symm, fun cb => ?_⟩
    cases cb with
    | childAdded => exact he.2.2.symm
    | valueUpdate => exact he.2.1.symm

/-- The end of `broker_node_free`, for a node whose lists are those that were read before. -/
theorem dropNode_owned (hσ : Owned σ) (hnode : ∀ y, σ.node.get n = some y → ∀ cb, y.dispatcher cb = node.dispatcher cb)
    (hlis : ∀ cb l x, l ∈ node.dispatcher cb → σ.listener.get l = some x → x.list = some n ∨ x.list = none) :
    Owned (σ.dropNode n node) ∧ Shrinks σ (σ.dropNode n node) := by
  refine ⟨⟨?_, ?_, ?_, ?_, ?_⟩, ⟨fun m y hy => (dropNode_node_eq_some hy).2, fun l y hy => ?_⟩⟩
  · intro m y cb l hm hl
    obtain ⟨hne, y0, hy0, -, hd⟩ := dropNode_node_eq_some hm
    obtain ⟨x, hx, hcb, hlist⟩ := hσ.listed m y0 cb l hy0 (hd cb ▸ hl)
    refine ⟨x, ?_, hcb, hlist⟩
    rw [dropNode_listener, if_neg]
    · exact hx
    · -- a listener of the node would be in the list of another node
      intro h
      obtain ⟨cb', h⟩ := mem_dispatchers.mp h
      rcases hlis cb' l x h hx with h1 | h1
      · exact hne (Option.some.inj (hlist.symm.trans h1))
      · cases hlist.symm.trans h1
  · intro l x m hl hx
    obtain ⟨x0, hx0, hcb, hdata, ⟨-, h⟩ | ⟨hnot, h⟩⟩ := dropNode_listener_eq_some hl
    · cases hx.symm.trans h
    · obtain ⟨y0, z, hy0, hmem0, hz, hmap⟩ := hσ.linked l x0 m hx0 (h.symm.trans hx)
      have hne : m ≠ n := by
        rintro rfl
        exact hnot (mem_dispatchers.mpr ⟨x0.callback, hnode y0 hy0 x0.callback ▸ hmem0⟩)
      have h1 := dropNode_node σ n node m
      rw [if_neg hne, hy0] at h1
      obtain ⟨y, hy, -⟩ := Option.map_eq_some_iff.mp h1
      obtain ⟨-, y1, hy1, hpath, hd⟩ := dropNode_node_eq_some hy
      cases hy0.symm.trans hy1
      refine ⟨y, z, hy, ?_, ?_, ?_⟩
      · rw [hcb, hd]
        exact hmem0
      · rw [dropNode_stream, hdata]
        exact hz
      · rw [hcb, hpath]
        exact hmap
  · intro m y cb hm
    obtain ⟨-, y0, hy0, -, hd⟩ := dropNode_node_eq_some hm
    rw [hd]
    exact hσ.nodup m y0 cb hy0
  · intro st z cb q l hz hl
    rw [dropNode_stream] at hz
    obtain ⟨x, hx, hcb, hdata⟩ := hσ.remembered st z cb q l hz hl
    rw [dropNode_listener, hx]
    split
    · exact ⟨_, rfl, hcb, hdata⟩
    · exact ⟨x, rfl, hcb, hdata⟩
  · intro st z cb q q' l hz
    rw [dropNode_stream] at hz
    exact hσ.inj st z cb q q' l hz
  · obtain ⟨x, hx, hcb, hdata, h | h⟩ := dropNode_listener_eq_some hy
    · exact ⟨x, hx, hcb, hdata, .inr h.2⟩
    · exact ⟨x, hx, hcb, hdata, .inl h.2⟩

/-- Nodes that are freed take their listeners out of the lists. -/
theorem brokerNodeFree_owned (fuel : Nat) (hσ : Owned σ) (h : State.brokerNodeFree fuel σ n = some σ') :
    Owned σ' ∧ Shrinks σ σ' := by
  induction fuel generalizing σ σ' n with
  | zero => cases h
  | succ fuel ih =>
    simp only [State.brokerNodeFree, Option.bind_eq_bind, Option.bind_eq_some_iff, Option.some.injEq] at h
    obtain ⟨node, hn, τ, hτ, rfl⟩ := h
    have hloop : Owned τ ∧ Shrinks σ τ := by
      apply foldlM_invariant (fun τ => Owned τ ∧ Shrinks σ τ) ?_ hτ ⟨hσ, .refl σ⟩
      rintro υ c - φ ⟨h1, h2⟩ hs
      simp only [Option.bind_eq_some_iff] at hs
      obtain ⟨_, -, hs⟩ := hs
      obtain ⟨h3, h4⟩ := owned_modNode (n := c) (f := fun child => { child with parent := none }) h1
        (fun _ => rfl) (fun _ cb => by cases cb <;> rfl)
      obtain ⟨h5, h6⟩ := ih h3 hs
      exact ⟨h5, (h2.trans h4).trans h6⟩
    obtain ⟨h1, h2⟩ := hloop
    have hnode : ∀ y, τ.node.get n = some y → ∀ cb, y.dispatcher cb = node.dispatcher cb := by
      intro y hy cb
      obtain ⟨x, hx, -, hd⟩ := h2.node n y hy
      cases hn.symm.trans hx
      exact hd cb
    have hlis : ∀ cb l x, l ∈ node.dispatcher cb → τ.listener.get l = some x → x.list = some n ∨ x.list = none := by
      intro cb l y hl hy
      obtain ⟨x, hx, -, hlist⟩ := hσ.listed n node cb l hn hl
      obtain ⟨x', hx', -, -, h⟩ := h2.listener l y hy
      cases hx.symm.trans hx'
      exact h.imp (fun h => h.trans hlist) id
    obtain ⟨h3, h4⟩ := dropNode_owned h1 hnode hlis
    exact ⟨h3, h2.trans h4⟩

/-! ## Closing -/

/-- The loops of `query_destroy` on the way: `rest` are the listeners of `st` that are still to be freed. -/
structure Destroying (st : StreamId) (rest : List ListenerId) (σ : State) : Prop where
  listed : ∀ n node cb l, σ.node.get n = some node → l ∈ node.dispatcher cb →
    ∃ x, σ.listener.get l = some x ∧ x.callback = cb ∧ x.list = some n
  linked : ∀ l x n, σ.listener.get l = some x → x.list = some n →
    ∃ node, σ.node.get n = some node ∧ l ∈ node.dispatcher x.callback ∧ (x.data = st → l ∈ rest) ∧
      (x.data ≠ st → ∃ stream, σ.stream.get x.data = some stream ∧
        (stream.listeners x.callback).get node.path = some l)
  nodup : ∀ n node cb, σ.node.get n = some node → (node.dispatcher cb).Nodup
  remembered : ∀ st' stream cb q l, st' ≠ st → σ.stream.get st' = some stream →
    (stream.listeners cb).get q = some l → ∃ x, σ.listener.get l = some x ∧ x.callback = cb ∧ x.data = st'
  inj : ∀ st' stream cb q q' l, st' ≠ st → σ.stream.get st' = some stream →
    (stream.listeners cb).get q = some l → (stream.listeners cb).get q' = some l → q = q'
  rest : rest.Nodup ∧ ∀ l ∈ rest, ∃ x, σ.listener.get l = some x ∧ x.data = st

section

variable {rest : List ListenerId} {L : Heap Listener}

/-- Freeing a listener of the query: the other queries keep what they remember, if nothing else was changed. -/
theorem Destroying.free_remembered (hσ : Destroying st (l :: rest) σ) (hL : ∀ k, k ≠ l → L.get k = σ.listener.get k) :
    ∀ st' stream cb q l', st' ≠ st → σ.stream.get st' = some stream → (stream.listeners cb).get q = some l' →
      ∃ y, (L.free l).get l' = some y ∧ y.callback = cb ∧ y.data = st' := by
  intro st' stream cb q l' hne hst hl
  obtain ⟨x, hx, hdata⟩ := hσ.rest.2 l List.mem_cons_self
  obtain ⟨y, hy, hcb, hd⟩ := hσ.remembered st' stream cb q l' hne hst hl
  have hll : l' ≠ l := by
    rintro rfl
    cases hx.symm.trans hy
    exact hne (hd.symm.trans hdata)
  exact ⟨y, by rw [Heap.get_free_ne hll, hL l' hll, hy], hcb, hd⟩

/-- The listeners that are still to be freed are alive. -/
theorem Destroying.free_rest (hσ : Destroying st (l :: rest) σ) (hL : ∀ k, k ≠ l → L.get k = σ.listener.get k) :
    rest.Nodup ∧ ∀ l' ∈ rest, ∃ y, (L.free l).get l' = some y ∧ y.data = st := by
  obtain ⟨hnotin, hnodup⟩ := List.nodup_cons.mp hσ.rest.1
  refine ⟨hnodup, fun l' hl' => ?_⟩
  obtain ⟨y, hy, hd⟩ := hσ.rest.2 l' (List.mem_cons_of_mem _ hl')
  have hll : l' ≠ l := by
    rintro rfl
    exact hnotin hl'
  exact ⟨y, by rw [Heap.get_free_ne hll, hL l' hll, hy], hd⟩

/-- A listener that is in no list is freed. -/
theorem Destroying.free (hσ : Destroying st (l :: rest) σ) (hx : σ.listener.get l = some x) (hlist : x.list = none) :
    Destroying st rest { σ with listener := σ.listener.free l } := by
  refine ⟨?_, ?_, hσ.nodup, hσ.free_remembered (fun _ _ => rfl), hσ.inj, hσ.free_rest (fun _ _ => rfl)⟩
  · intro m y cb l' hm hl'
    obtain ⟨z, hz, hcb, hz'⟩ := hσ.listed m y cb l' hm hl'
    have hll : l' ≠ l := by
      rintro rfl
      cases hx.symm.trans hz
      cases hlist.symm.trans hz'
    exact ⟨z, (Heap.get_free_ne hll).trans hz, hcb, hz'⟩
  · intro l' y m hl' hy
    obtain ⟨hne, hl'⟩ := Heap.get_free_eq_some.mp hl'
    obtain ⟨node, hn, hmem, h1, h2⟩ := hσ.linked l' y m hl' hy
    exact ⟨node, hn, hmem, fun h => (List.mem_cons.mp (h1 h)).resolve_left hne, h2⟩

/-- A listener is taken out of its list and freed. -/
theorem Destroying.unlink (hσ : Destroying st (l :: rest) σ) (hx : σ.listener.get l = some x) (hlist : x.list = some n)
    (hn : σ.node.get n = some node) : Destroying st rest { σ with
      listener := (σ.listener.modify l (fun y => { y with list := none })).free l
      node := σ.node.modify n (fun _ => node.setDispatcher x.callback ((node.dispatcher x.callback).erase l)) } := by
  have hL : ∀ k, k ≠ l → (σ.listener.modify l (fun y => { y with list := none })).get k = σ.listener.get k :=
    fun k hk => Heap.get_modify_ne hk
  have hN : ∀ m y, (σ.node.modify n (fun _ => node.setDispatcher x.callback
      ((node.dispatcher x.callback).erase l))).get m = some y → ∃ y0, σ.node.get m = some y0 ∧ y.path = y0.path ∧
        ∀ cb, y.dispatcher cb = if m = n ∧ cb = x.callback then (y0.dispatcher cb).erase l else y0.dispatcher cb := by
    intro m y
    refine get_setDispatcher (g := fun ls => ls.erase l) (fun a ha => ?_)
    cases hn.symm.trans ha
    rfl
  refine ⟨?_, ?_, ?_, hσ.free_remembered hL, hσ.inj, hσ.free_rest hL⟩
  · intro m y cb l' hm hl'
    obtain ⟨y0, hy0, -, hd⟩ := hN m y hm
    rw [hd] at hl'
    have hl0 : l' ∈ y0.dispatcher cb ∧ l' ≠ l := by
      split at hl'
      · exact ((hσ.nodup m y0 cb hy0).mem_erase_iff.mp hl').symm
      · rename_i hne
        refine ⟨hl', ?_⟩
        rintro rfl
        obtain ⟨z, hz, hcb, hz'⟩ := hσ.listed m y0 cb l' hy0 hl'
        cases hx.symm.trans hz
        exact hne ⟨Option.some.inj (hz'.symm.trans hlist), hcb.symm⟩
    obtain ⟨z, hz, hrest'⟩ := hσ.listed m y0 cb l' hy0 hl0.1
    refine ⟨z, ?_, hrest'⟩
    show ((σ.listener.modify l _).free l).get l' = some z
    rw [Heap.get_free_ne hl0.2, hL l' hl0.2, hz]
  · intro l' y m hl' hy
    obtain ⟨hne, hl'⟩ := Heap.get_free_eq_some.mp hl'
    change (σ.listener.modify l _).get l' = some y at hl'
    rw [Heap.get_modify_ne hne] at hl'
    obtain ⟨y0, hy0, hmem0, h1, h2⟩ := hσ.linked l' y m hl' hy
    obtain ⟨y2, hy2, hpath, hd⟩ := hN m _ (Heap.get_modify_of_get hy0)
    cases hy0.symm.trans hy2
    refine ⟨_, Heap.get_modify_of_get hy0, ?_, fun h => (List.mem_cons.mp (h1 h)).resolve_left hne, fun h => ?_⟩
    · rw [hd]
      split
      · exact (List.mem_erase_of_ne hne).mpr hmem0
      · exact hmem0
    · obtain ⟨z, hz, hmap⟩ := h2 h
      exact ⟨z, hz, hpath ▸ hmap⟩
  · intro m y cb hm
    obtain ⟨y0, hy0, -, hd⟩ := hN m y hm
    rw [hd]
    split
    · exact (hσ.nodup m y0 cb hy0).erase _
    · exact hσ.nodup m y0 cb hy0

/-- A listener that is freed is one that is alive. -/
theorem destroyListener_spec (hσ : Destroying st (l :: rest) σ) :
    ∃ σ', σ.destroyListener l = some σ' ∧ Destroying st rest σ' ∧ σ'.stream = σ.stream := by
  obtain ⟨x, hx, -⟩ := hσ.rest.2 l List.mem_cons_self
  unfold State.destroyListener
  rw [hx]
  simp only [Option.bind_eq_bind, Option.bind_some]
  unfold State.listenerRemove
  cases hlist : x.list with
  | none => exact ⟨_, rfl, hσ.free hx hlist, rfl⟩
  | some n =>
    obtain ⟨node, hn, -⟩ := hσ.linked l x n hx hlist
    simp only [hn, Option.bind_eq_bind, Option.bind_some]
    exact ⟨_, rfl, hσ.unlink hx hlist hn, rfl⟩

end

theorem destroyAll_spec {rest : List ListenerId} (hσ : Destroying st rest σ) :
    ∃ σ', rest.foldlM State.destroyListener σ = some σ' ∧ Destroying st [] σ' ∧ σ'.stream = σ.stream := by
  induction rest generalizing σ with
  | nil => exact ⟨σ, rfl, hσ, rfl⟩
  | cons l rest ih =>
    obtain ⟨τ, hτ, h1, h2⟩ := destroyListener_spec hσ
    obtain ⟨σ', hσ', h3, h4⟩ := ih h1
    refine ⟨σ', ?_, h3, h4.trans h2⟩
    rw [List.foldlM_cons, hτ]
    exact hσ'

/-- A query is closed: its listeners are freed, each of them once, and none is left in a list. -/
theorem queryDestroy_owned (hσ : Owned σ) (hst : σ.stream.get st = some stream) :
    ∃ σ', σ.queryDestroy st = some σ' ∧ Owned σ' := by
  have hstart : Destroying st (stream.childAddListeners.values ++ stream.valueUpdateListeners.values) σ := by
    have hmem : ∀ l, l ∈ stream.childAddListeners.values ++ stream.valueUpdateListeners.values ↔
        ∃ cb q, (stream.listeners cb).get q = some l := by
      intro l
      rw [List.mem_append, AssocMap.mem_values, AssocMap.mem_values]
      constructor
      · rintro (⟨q, h⟩ | ⟨q, h⟩)
        · exact ⟨.childAdded, q, h⟩
        · exact ⟨.valueUpdate, q, h⟩
      · rintro ⟨cb, q, h⟩
        cases cb with
        | childAdded => exact .inl ⟨q, h⟩
        | valueUpdate => exact .inr ⟨q, h⟩
    refine ⟨hσ.listed, ?_, hσ.nodup, fun st' z cb q l _ => hσ.remembered st' z cb q l,
      fun st' z cb q q' l _ => hσ.inj st' z cb q q' l, ?_, ?_⟩
    · intro l x n hl hx
      obtain ⟨node, z, hn, hmem', hz, hmap⟩ := hσ.linked l x n hl hx
      refine ⟨node, hn, hmem', fun h => ?_, fun _ => ⟨z, hz, hmap⟩⟩
      rw [h] at hz
      cases hst.symm.trans hz
      exact (hmem l).mpr ⟨_, _, hmap⟩
    · apply List.Nodup.append
      · exact AssocMap.nodup_values (fun q q' l => hσ.inj st stream .childAdded q q' l hst)
      · exact AssocMap.nodup_values (fun q q' l => hσ.inj st stream .valueUpdate q q' l hst)
      · intro l h h'
        obtain ⟨q, h⟩ := AssocMap.mem_values.mp h
        obtain ⟨q', h'⟩ := AssocMap.mem_values.mp h'
        obtain ⟨x, hx, hcb, -⟩ := hσ.remembered st stream .childAdded q l hst h
        obtain ⟨x', hx', hcb', -⟩ := hσ.remembered st stream .valueUpdate q' l hst h'
        cases hx.symm.trans hx'
        cases hcb.symm.trans hcb'
    · intro l h
      obtain ⟨cb, q, h⟩ := (hmem l).mp h
      obtain ⟨x, hx, -, hd⟩ := hσ.remembered st stream cb q l hst h
      exact ⟨x, hx, hd⟩
  obtain ⟨τ, hτ, h1, h2⟩ := destroyAll_spec hstart
  rw [List.foldlM_append, Option.bind_eq_bind, Option.bind_eq_some_iff] at hτ
  obtain ⟨υ, hυ, hτ⟩ := hτ
  refine ⟨{ τ with stream := τ.stream.free st }, ?_, ?_⟩
  · unfold State.queryDestroy
    rw [hst]
    simp only [Option.bind_eq_bind, Option.bind_some]
    rw [hυ, Option.bind_some, hτ]
    rfl
  · refine ⟨h1.listed, ?_, h1.nodup, ?_, ?_⟩
    · intro l x n hl hx
      obtain ⟨node, hn, hmem, h3, h4⟩ := h1.linked l x n hl hx
      have hne : x.data ≠ st := fun h => absurd (h3 h) List.not_mem_nil
      obtain ⟨z, hz, hmap⟩ := h4 hne
      refine ⟨node, z, hn, hmem, ?_, hmap⟩
      show (τ.stream.free st).get x.data = some z
      rw [Heap.get_free_ne hne, hz]
    · intro st' z cb q l hz hl
      obtain ⟨hne, hz⟩ := Heap.get_free_eq_some.mp hz
      exact h1.remembered st' z cb q l hne hz hl
    · intro st' z cb q q' l hz hl
      obtain ⟨hne, hz⟩ := Heap.get_free_eq_some.mp hz
      exact h1.inj st' z cb q q' l hne hz hl

/-! ## Values, new nodes, new queries -/

/-- What is owned does not depend on the rows that were sent. -/
theorem owned_sent (hσ : Owned σ) (rows : List QueryRow) : Owned { σ with sent := rows } :=
  ⟨hσ.listed, hσ.linked, hσ.nodup, hσ.remembered, hσ.inj⟩

/-- A value update reaches open queries only. -/
theorem brokerNodeUpdateValue_owned (hσ : Owned σ) (hn : σ.node.get n = some node) (value : Json) :
    ∃ σ', σ.brokerNodeUpdateValue n value = some σ' ∧ Owned σ' := by
  have h1 := (owned_modNode (n := n) (f := fun node => { node with value := some value }) hσ (fun _ => rfl)
    (fun _ cb => by cases cb <;> rfl)).1
  have hn' : (σ.modNode n (fun node => { node with value := some value })).node.get n
      = some { node with value := some value } := by
    show (σ.node.modify n _).get n = _
    rw [Heap.get_modify_self, hn]
    rfl
  generalize hτ : σ.modNode n (fun node => { node with value := some value }) = τ at h1 hn'
  have hround : ∀ υ, ∀ l ∈ node.onValueUpdate, (∃ rows, υ = { τ with sent := rows }) →
      ∃ φ, State.queryValueUpdate n υ l = some φ ∧ ∃ rows, φ = { τ with sent := rows } := by
    rintro _ l hl ⟨rows, rfl⟩
    obtain ⟨x, hx, -, hlist⟩ := h1.listed n _ .valueUpdate l hn' hl
    obtain ⟨_, stream, -, -, hst, -⟩ := h1.linked l x n hx hlist
    unfold State.queryValueUpdate
    simp only [hx, hst, hn', Option.bind_eq_bind, Option.bind_some]
    exact ⟨_, rfl, _, rfl⟩
  obtain ⟨φ, hφ, rows, rfl⟩ := foldlM_total _ hround ⟨τ.sent, rfl⟩
  refine ⟨_, ?_, owned_sent h1 rows⟩
  unfold State.brokerNodeUpdateValue
  rw [hn]
  simp only [Option.bind_eq_bind, Option.bind_some]
  rw [hτ]
  exact hφ

theorem owned_openStream (hσ : Owned σ) (requester rid : Nat) (pattern : CString) :
    Owned (σ.openStream requester rid pattern) := by
  have hstream : ∀ st' z, (σ.stream.alloc ⟨pattern, requester, rid, .empty, .empty⟩).get st' = some z →
      σ.stream.get st' = some z ∨ ∀ cb q, (z.listeners cb).get q = none := by
    intro st' z hz
    rw [Heap.get_alloc] at hz
    split at hz
    · cases hz
      exact .inr (fun cb q => by cases cb <;> rfl)
    · exact .inl hz
  refine ⟨hσ.listed, ?_, hσ.nodup, ?_, ?_⟩
  · intro l x m hl hx
    obtain ⟨y, z, hy, hmem, hz, hmap⟩ := hσ.linked l x m hl hx
    exact ⟨y, z, hy, hmem, Heap.get_alloc_of_get hz, hmap⟩
  · intro st' z cb q l hz hl
    rcases hstream st' z hz with h | h
    · exact hσ.remembered st' z cb q l h hl
    · rw [h] at hl
      cases hl
  · intro st' z cb q q' l hz hl hl'
    rcases hstream st' z hz with h | h
    · exact hσ.inj st' z cb q q' l h hl hl'
    · rw [h] at hl
      cases hl

/-- A query starts at nodes with different paths. -/
theorem queryInvoke_owned {requester rid : Nat} {pattern : CString} (hσ : Owned σ)
    (hnodup : ((visits σ pattern (σ.node.next + 1) dataNode).map (keyOf σ)).Nodup)
    (h : σ.queryInvoke requester rid pattern = some σ') : Owned σ' := by
  have hnew : (σ.openStream requester rid pattern).stream.get σ.stream.next
      = some ⟨pattern, requester, rid, .empty, .empty⟩ := Heap.get_alloc_next _ _
  have h1 : attachAll σ.stream.next (visits σ pattern (σ.node.next + 1) dataNode) (σ.openStream requester rid pattern)
      = some σ' := by
    have hshape : SameShape σ (σ.openStream requester rid pattern) := by
      apply SameShape.refl
    rw [← visits_congr hshape]
    apply walk_eq _ _ h
    rw [hnew]
    rfl
  refine (attachAll_owned (owned_openStream hσ requester rid pattern) h1 hnodup ?_).1
  intro e _
  unfold linkedAt
  rw [hnew]
  cases e.2 <;> rfl

theorem owned_linkChild {p : Nat} (hσ : Owned σ) (hp : σ.node.get p = some node) (name : CString) :
    Owned (σ.linkChild p node name) := by
  have hold : ∀ m y, (σ.linkChild p node name).node.get m = some y →
      (∃ x, σ.node.get m = some x ∧ y.path = x.path ∧ ∀ cb, y.dispatcher cb = x.dispatcher cb) ∨
        ∀ cb, y.dispatcher cb = [] := by
    intro m y hm
    by_cases hnew : m = σ.node.next
    · rw [hnew, linkChild_new hp] at hm
      cases hm
      exact .inr (fun cb => by cases cb <;> rfl)
    · obtain ⟨x, hx⟩ := linkChild_get_old hp hm hnew
      obtain ⟨x', hx', hpath, -, -, hd, -⟩ := linkChild_old hp name hx
      cases hm.symm.trans hx'
      exact .inl ⟨x, hx, hpath, hd⟩
  refine ⟨?_, ?_, ?_, hσ.remembered, hσ.inj⟩
  · intro m y cb l hm hl
    rcases hold m y hm with ⟨x, hx, -, hd⟩ | hd
    · exact hσ.listed m x cb l hx (hd cb ▸ hl)
    · rw [hd] at hl
      exact absurd hl List.not_mem_nil
  · intro l x m hl hx
    obtain ⟨y, z, hy, hmem, hz, hmap⟩ := hσ.linked l x m hl hx
    obtain ⟨y', hy', hpath, -, -, hd, -⟩ := linkChild_old hp name hy
    exact ⟨y', z, hy', (hd x.callback).symm ▸ hmem, hz, hpath.symm ▸ hmap⟩
  · intro m y cb hm
    rcases hold m y hm with ⟨x, hx, -, hd⟩ | hd
    · rw [hd]
      exact hσ.nodup m x cb hx
    · rw [hd]
      exact List.nodup_nil

/-- The query of a listener. -/
def queryOf (σ : State) (l : ListenerId) : Option StreamId := (σ.listener.get l).map Listener.data

/-- A node lists at most one listener of one kind of a query. -/
theorem Owned.queries_nodup (hσ : Owned σ) (hn : σ.node.get n = some node) (cb : Callback) :
    ((node.dispatcher cb).map (queryOf σ)).Nodup := by
  apply List.Nodup.map_on ?_ (hσ.nodup n node cb hn)
  intro l hl l' hl' heq
  obtain ⟨x, hx, hcb, hlist⟩ := hσ.listed n node cb l hn hl
  obtain ⟨x', hx', hcb', hlist'⟩ := hσ.listed n node cb l' hn hl'
  rw [queryOf, queryOf, hx, hx', Option.map_some, Option.map_some, Option.some.injEq] at heq
  obtain ⟨y, z, hy, -, hz, hmap⟩ := hσ.linked l x n hx hlist
  obtain ⟨y', z', hy', -, hz', hmap'⟩ := hσ.linked l' x' n hx' hlist'
  cases hy.symm.trans hy'
  rw [← heq] at hz'
  cases hz.symm.trans hz'
  rw [hcb] at hmap
  rw [hcb'] at hmap'
  exact Option.some.inj (hmap.symm.trans hmap')

/-- The callbacks for a new node, for queries that are not linked at its path. -/
theorem callbacks_owned {c : Nat} {child : Node} {ls : List ListenerId} (hσ : Owned σ)
    (hc : σ.node.get c = some child) (hleaf : child.children = .empty)
    (hnodup : (ls.map (queryOf σ)).Nodup)
    (hfree : ∀ l ∈ ls, ∃ x, σ.listener.get l = some x ∧ ∀ cb, linkedAt σ x.data cb child.path = false)
    (h : ls.foldlM (fun σ l => σ.queryChildAdded c l) σ = some σ') : Owned σ' := by
  induction ls generalizing σ child with
  | nil =>
    cases h
    exact hσ
  | cons l ls ih =>
    simp only [List.foldlM_cons, Option.bind_eq_bind, Option.bind_eq_some_iff] at h
    obtain ⟨τ, hτ, h⟩ := h
    obtain ⟨x, hx, hlink⟩ := hfree l List.mem_cons_self
    simp only [State.queryChildAdded, hx, Option.bind_eq_bind, Option.bind_some] at hτ
    obtain ⟨stream, hst⟩ : ∃ stream, σ.stream.get x.data = some stream := by
      have hw := hτ
      unfold State.queryChildAddedStream at hw
      simp only [Option.bind_eq_bind, Option.bind_eq_some_iff] at hw
      obtain ⟨stream, hst, -⟩ := hw
      exact ⟨stream, hst⟩
    have hv : attachAll x.data (visits σ stream.pattern 1 c) σ = some τ := by
      rw [← visits_leaf hc hleaf]
      apply walk_eq _ _ hτ
      rw [hst]
      rfl
    -- the new node is all that is visited
    have hkeys : ((visits σ stream.pattern 1 c).map (keyOf σ)).Nodup := by
      have h1 : visits σ stream.pattern 1 c = if matchQuery child.path stream.pattern = .notMatch then []
          else (c, .childAdded) :: if matchQuery child.path stream.pattern = .fullMatch then [(c, .valueUpdate)] else [] := by
        rw [visits, hc]
        dsimp only
        rw [hleaf]
        rfl
      rw [h1]
      split
      · exact List.nodup_nil
      · split
        · simp [keyOf]
        · exact List.nodup_singleton _
    have hself : ∀ e ∈ visits σ stream.pattern 1 c, linkedAt σ x.data e.2 (pathOf σ e.1) = false := by
      intro e he
      obtain ⟨-, rfl | ⟨-, rfl⟩⟩ := (mem_visits_leaf hc hleaf).mp he
      · rw [pathOf_eq hc]
        exact hlink _
      · rw [pathOf_eq hc]
        exact hlink _
    obtain ⟨h1, h2⟩ := attachAll_owned hσ hv hkeys hself
    obtain ⟨hshape, -⟩ := attachAll_shape hv
    obtain ⟨-, -, -, hlis⟩ := attachAll_next hv
    obtain ⟨child', hc', hs⟩ := hshape.get hc
    simp only [Node.shape, Prod.mk.injEq] at hs
    have hget : ∀ l' ∈ ls, τ.listener.get l' = σ.listener.get l' := by
      intro l' hl'
      obtain ⟨y, hy, -⟩ := hfree l' (List.mem_cons_of_mem _ hl')
      exact hlis l' (Heap.lt_next_of_get hy)
    rw [List.map_cons, List.nodup_cons] at hnodup
    have hq : ls.map (queryOf τ) = ls.map (queryOf σ) := by
      apply List.map_congr_left
      intro l' hl'
      rw [queryOf, queryOf, hget l' hl']
    apply ih h1 hc' (hs.2.2.2.trans hleaf) (hq ▸ hnodup.2) ?_ h
    intro l' hl'
    obtain ⟨y, hy, hy'⟩ := hfree l' (List.mem_cons_of_mem _ hl')
    refine ⟨y, (hget l' hl').trans hy, fun cb => ?_⟩
    have hne : y.data ≠ x.data := by
      intro heq
      apply hnodup.1
      refine List.mem_map.mpr ⟨l', hl', ?_⟩
      rw [queryOf, queryOf, hx, hy, Option.map_some, Option.map_some, heq]
    rw [hs.1, h2 _ _ _ hne]
    exact hy' cb

end

/-! ## Runs -/

/-- No query that listens for children of `parent` is linked at the path of a new child. -/
def State.freePath (σ : State) (node : Node) (name : CString) : Bool :=
  node.onChildAdded.all (fun l => (σ.listener.get l).all (fun x =>
    !linkedAt σ x.data .childAdded (childPath node.path name) && !linkedAt σ x.data .valueUpdate (childPath node.path name)))

/-- A query never gets two listeners of one kind for one path: a new node has no path at which a query that is to
    listen there is linked already, and the nodes at which a query starts have different paths. -/
def Event.fresh (σ : State) : Event → Bool
  | .addNode parent name =>
    (σ.node.get parent).all (fun node => (node.children.get name).isSome || σ.freePath node name)
  | .query _ _ text =>
    (parseQuery text).all (fun pattern => decide ((visits σ pattern (σ.node.next + 1) dataNode).map (keyOf σ)).Nodup)
  | _ => true

theorem brokerNodeAdd_owned {σ σ' : State} {p : Nat} {name : CString} (hσ : Owned σ)
    (hfresh : (Event.addNode p name).fresh σ = true) (h : σ.brokerNodeAdd p name = some σ') : Owned σ' := by
  simp only [State.brokerNodeAdd, Option.bind_eq_bind, Option.bind_eq_some_iff] at h
  obtain ⟨node, hp, h⟩ := h
  split at h
  · cases h
    exact hσ
  · rename_i hfree
    simp only [Event.fresh, hp, Option.all_some, hfree, Bool.false_or] at hfresh
    apply callbacks_owned (owned_linkChild hσ hp name) (linkChild_new hp name) rfl
      (hσ.queries_nodup hp .childAdded) ?_ h
    intro l hl
    obtain ⟨x, hx, -⟩ := hσ.listed p node .childAdded l hp hl
    refine ⟨x, hx, fun cb => ?_⟩
    have h1 := List.all_eq_true.mp hfresh l hl
    rw [hx, Option.all_some, Bool.and_eq_true, Bool.not_eq_true', Bool.not_eq_true'] at h1
    cases cb with
    | childAdded => exact h1.1
    | valueUpdate => exact h1.2

theorem step_owned {σ σ' : State} {e : Event} (hσ : Owned σ) (hfresh : e.fresh σ = true) (h : step σ e = some σ') :
    Owned σ' := by
  cases e with
  | addNode p name => exact brokerNodeAdd_owned hσ hfresh h
  | removeNode n =>
    simp only [step] at h
    split at h
    · cases h
    · exact (brokerNodeFree_owned _ hσ h).1
  | updateValue n value =>
    simp only [step] at h
    have hn : ∃ node, σ.node.get n = some node := by
      unfold State.brokerNodeUpdateValue at h
      obtain ⟨node, hn, -⟩ := Option.bind_eq_some_iff.mp h
      exact ⟨node, hn⟩
    obtain ⟨node, hn⟩ := hn
    obtain ⟨φ, hφ, h1⟩ := brokerNodeUpdateValue_owned hσ hn value
    cases h.symm.trans hφ
    exact h1
  | query requester rid q =>
    simp only [step] at h
    simp only [Event.fresh] at hfresh
    cases hq : parseQuery q with
    | none =>
      rw [hq] at h
      cases h
      exact hσ
    | some pattern =>
      rw [hq] at h hfresh
      exact queryInvoke_owned hσ (of_decide_eq_true hfresh) h
  | close st =>
    simp only [step] at h
    have hst : ∃ stream, σ.stream.get st = some stream := by
      unfold State.queryDestroy at h
      obtain ⟨stream, hst, -⟩ := Option.bind_eq_some_iff.mp h
      exact ⟨stream, hst⟩
    obtain ⟨stream, hst⟩ := hst
    obtain ⟨φ, hφ, h1⟩ := queryDestroy_owned hσ hst
    cases h.symm.trans hφ
    exact h1

end DSLink.Query
