import DSLink.Broker.Calls

/-!
# `Broker.Tree` — names and paths in the node tree

`TreeOk` says that the tree is written down consistently: a child is called what its parent files it under, and
its path is the path of the parent with that name. It holds in every reachable state without a condition on
the run. Its use is `brokerNodeGet_link`: what looking a path up below a downstream node gives.

## Contents
- `TreeOk`, `Shrinks`, and the two ways the tree changes: it shrinks, or one node is added to it.
- `reach_tree`, the run theorem.
- `brokerNodeGet` on the path of a downstream node with more text after it.
-/

namespace DSLink

variable {J : Type} {cfg : Config} {σ σ' : Broker J}

namespace Broker

/-- Every child has the name and the path that its parent gives it, and no entry points past the heap. -/
structure TreeOk (σ : Broker J) : Prop where
  rootLt : σ.root < σ.node.next
  root : ∀ node, σ.node.get σ.root = some node → node.path = [slash]
  regular : ∀ p node k n, σ.node.get p = some node → node.children.get k = some (.regular n) →
    n < σ.node.next ∧ ∀ child, σ.node.get n = some child →
      child.name = k ∧ child.path = childPath node.path k
  downstream : ∀ p node k d, σ.node.get p = some node → node.children.get k = some (.downstream d) →
    d < σ.dnode.next ∧ ∀ child, σ.dnode.get d = some child →
      child.name = k ∧ child.path = node.path ++ slash :: k

/-- The tree of `σ'` is a part of the tree of `σ`. -/
structure Shrinks (σ σ' : Broker J) : Prop where
  root : σ'.root = σ.root
  nodeNext : σ.node.next ≤ σ'.node.next
  dnodeNext : σ.dnode.next ≤ σ'.dnode.next
  node : ∀ n node', σ'.node.get n = some node' → ∃ node, σ.node.get n = some node ∧ node'.path = node.path ∧
    node'.name = node.name ∧ ∀ k r, node'.children.get k = some r → node.children.get k = some r
  dnode : ∀ d node', σ'.dnode.get d = some node' → ∃ node, σ.dnode.get d = some node ∧
    node'.path = node.path ∧ node'.name = node.name

theorem TreeOk.shrinks (h : σ.TreeOk) (hs : Shrinks σ σ') : σ'.TreeOk := by
  refine ⟨hs.root ▸ Nat.lt_of_lt_of_le h.rootLt hs.nodeNext, ?_, ?_, ?_⟩
  · intro node' hnode'
    rw [hs.root] at hnode'
    obtain ⟨node, hnode, hpath, -⟩ := hs.node _ _ hnode'
    rw [hpath]
    exact h.root node hnode
  · intro p node' k n hp hk
    obtain ⟨node, hnode, hpath, -, hchildren⟩ := hs.node _ _ hp
    obtain ⟨hlt, hchild⟩ := h.regular p node k n hnode (hchildren k _ hk)
    refine ⟨Nat.lt_of_lt_of_le hlt hs.nodeNext, fun child' hchild' => ?_⟩
    obtain ⟨child, hc, hcpath, hcname, -⟩ := hs.node _ _ hchild'
    rw [hcpath, hcname, hpath]
    exact hchild child hc
  · intro p node' k d hp hk
    obtain ⟨node, hnode, hpath, -, hchildren⟩ := hs.node _ _ hp
    obtain ⟨hlt, hchild⟩ := h.downstream p node k d hnode (hchildren k _ hk)
    refine ⟨Nat.lt_of_lt_of_le hlt hs.dnodeNext, fun child' hchild' => ?_⟩
    obtain ⟨child, hc, hcpath, hcname⟩ := hs.dnode _ _ hchild'
    rw [hcpath, hcname, hpath]
    exact hchild child hc

namespace Shrinks

theorem refl (σ : Broker J) : Shrinks σ σ :=
  ⟨rfl, Nat.le_refl _, Nat.le_refl _, fun _ node' h => ⟨node', h, rfl, rfl, fun _ _ hk => hk⟩,
    fun _ node' h => ⟨node', h, rfl, rfl⟩⟩

theorem trans {τ : Broker J} (h : Shrinks σ τ) (h' : Shrinks τ σ') : Shrinks σ σ' := by
  refine ⟨h'.root.trans h.root, Nat.le_trans h.nodeNext h'.nodeNext, Nat.le_trans h.dnodeNext h'.dnodeNext,
    fun n node'' hn => ?_, fun d node'' hd => ?_⟩
  · obtain ⟨node', hn', hpath', hname', hsub'⟩ := h'.node _ _ hn
    obtain ⟨node, hn, hpath, hname, hsub⟩ := h.node _ _ hn'
    exact ⟨node, hn, hpath'.trans hpath, hname'.trans hname, fun k r hk => hsub k r (hsub' k r hk)⟩
  · obtain ⟨node', hd', hpath', hname'⟩ := h'.dnode _ _ hd
    obtain ⟨node, hd, hpath, hname⟩ := h.dnode _ _ hd'
    exact ⟨node, hd, hpath'.trans hpath, hname'.trans hname⟩

/-- A step outside of the tree keeps it. -/
theorem of_frame {ps : List Part} (h : Frame ps σ σ') (hn : Part.nodes ∉ ps) (hd : Part.downs ∉ ps)
    (hr : Part.roots ∉ ps) : Shrinks σ σ' := by
  have hnode : Heap.Rel (BrokerNode.Agree .nodes) σ.node σ'.node := h .nodes hn
  have hdnode : Heap.Rel (DownstreamNode.Agree .downs) σ.dnode σ'.dnode := h .downs hd
  have hroot : Same .roots σ σ' := h .roots hr
  refine ⟨hroot.1, Nat.le_of_eq hnode.1.symm, Nat.le_of_eq hdnode.1.symm, fun n node' hn => ?_,
    fun d node' hd => ?_⟩
  · obtain ⟨node, hn, hagree⟩ := hnode.get_rev hn
    exact ⟨node, hn, hagree.1, hagree.2.1, fun k r hk => hagree.2.2.2.1 ▸ hk⟩
  · obtain ⟨node, hd, hagree⟩ := hdnode.get_rev hd
    exact ⟨node, hd, hagree.1, hagree.2.1⟩

/-- Rewriting a local node so that it keeps its name and its path and gets no new child. -/
theorem modNode {n : NodeId} {f : BrokerNode J → BrokerNode J}
    (hf : ∀ node, (f node).path = node.path ∧ (f node).name = node.name ∧
      ∀ k r, (f node).children.get k = some r → node.children.get k = some r) :
    Shrinks σ (σ.modNode n f) := by
  refine ⟨rfl, Nat.le_refl _, Nat.le_refl _, fun m node' hm => ?_, fun d node' hd => ⟨node', hd, rfl, rfl⟩⟩
  have hget : (σ.node.modify n f).get m = some node' := hm
  rw [Heap.get_modify] at hget
  split at hget
  · rename_i hmn
    obtain ⟨node, hnode, rfl⟩ := Option.map_eq_some_iff.mp hget
    exact ⟨node, hmn ▸ hnode, hf node⟩
  · exact ⟨node', hget, rfl, rfl, fun _ _ hk => hk⟩

theorem leaveParent {parent : Option NodeId} {name : CString} (h : σ.leaveParent parent name = some σ') :
    Shrinks σ σ' := by
  unfold Broker.leaveParent at h
  split at h
  · cases h
    exact .refl _
  · obtain ⟨node, -, rfl⟩ := Option.map_eq_some_iff.mp h
    exact .modNode (fun node => ⟨rfl, rfl, fun k r hk => (AssocMap.get_erase_eq_some.mp hk).2⟩)

theorem orphan (σ : Broker J) (ref : NodeRef) : Shrinks σ (σ.orphan ref) := by
  cases ref with
  | regular n => exact .modNode (fun node => ⟨rfl, rfl, fun _ _ hk => hk⟩)
  | downstream d =>
    refine ⟨rfl, Nat.le_refl _, Nat.le_refl _, fun m node' hm => ⟨node', hm, rfl, rfl, fun _ _ hk => hk⟩,
      fun e node' he => ?_⟩
    have hget : (σ.dnode.modify d _).get e = some node' := he
    rw [Heap.get_modify] at hget
    split at hget
    · rename_i hed
      obtain ⟨node, hnode, rfl⟩ := Option.map_eq_some_iff.mp hget
      exact ⟨node, hed ▸ hnode, rfl, rfl⟩
    · exact ⟨node', hget, rfl, rfl⟩

theorem dropNode {n : NodeId} {parent : Option NodeId} {name : CString}
    (h : σ.dropNode n parent name = some σ') : Shrinks σ σ' := by
  simp only [Broker.dropNode, Option.bind_eq_bind, Option.bind_eq_some_iff] at h
  obtain ⟨τ, hτ, h⟩ := h
  obtain rfl := Option.some.inj h
  refine (leaveParent hτ).trans ⟨rfl, Nat.le_refl _, Nat.le_refl _, fun m node' hm => ?_,
    fun d node' hd => ⟨node', hd, rfl, rfl⟩⟩
  exact ⟨node', (Heap.get_free_eq_some.mp hm).2, rfl, rfl, fun _ _ hk => hk⟩

theorem freeDownstreamNode {d : DownId} (h : σ.freeDownstreamNode d = some σ') : Shrinks σ σ' := by
  simp only [Broker.freeDownstreamNode, Option.bind_eq_bind, Option.bind_eq_some_iff] at h
  obtain ⟨node, -, h⟩ := h
  split at h
  · cases h
  · simp only [Option.bind_eq_some_iff] at h
    obtain ⟨τ, hτ, h⟩ := h
    obtain rfl := Option.some.inj h
    refine (leaveParent hτ).trans ⟨rfl, Nat.le_refl _, Nat.le_refl _,
      fun m node' hm => ⟨node', hm, rfl, rfl, fun _ _ hk => hk⟩, fun e node' he => ?_⟩
    exact ⟨node', (Heap.get_free_eq_some.mp he).2, rfl, rfl⟩

end Shrinks

/-! ## A new node -/

/-- `σ'` has the new node `r`, without children, which `p` files under `k`. -/
structure Adds (σ σ' : Broker J) (p : NodeId) (k : CString) (r : NodeRef) : Prop where
  root : σ'.root = σ.root
  nodeNext : σ.node.next ≤ σ'.node.next
  dnodeNext : σ.dnode.next ≤ σ'.dnode.next
  fresh : (∀ n, r = .regular n → σ.node.next ≤ n ∧ n < σ'.node.next) ∧
    ∀ d, r = .downstream d → σ.dnode.next ≤ d ∧ d < σ'.dnode.next
  node : ∀ n node', σ'.node.get n = some node' →
    (∃ node, σ.node.get n = some node ∧ node'.path = node.path ∧ node'.name = node.name ∧ ∀ k' r',
      node'.children.get k' = some r' → node.children.get k' = some r' ∨ (n = p ∧ k' = k ∧ r' = r)) ∨
    (r = .regular n ∧ (∀ k', node'.children.get k' = none) ∧ node'.name = k ∧
      ∃ pnode, σ.node.get p = some pnode ∧ node'.path = childPath pnode.path k)
  dnode : ∀ d node', σ'.dnode.get d = some node' →
    (∃ node, σ.dnode.get d = some node ∧ node'.path = node.path ∧ node'.name = node.name) ∨
    (r = .downstream d ∧ node'.name = k ∧
      ∃ pnode, σ.node.get p = some pnode ∧ node'.path = pnode.path ++ slash :: k)

theorem TreeOk.adds {p : NodeId} {k : CString} {r : NodeRef} (h : σ.TreeOk) (hs : Adds σ σ' p k r) :
    σ'.TreeOk := by
  refine ⟨hs.root ▸ Nat.lt_of_lt_of_le h.rootLt hs.nodeNext, ?_, ?_, ?_⟩
  · intro node' hnode'
    rw [hs.root] at hnode'
    rcases hs.node _ _ hnode' with ⟨node, hnode, hpath, -⟩ | ⟨rfl, -⟩
    · exact hpath.trans (h.root node hnode)
    · exact absurd h.rootLt (Nat.not_lt.mpr (hs.fresh.1 _ rfl).1)
  · intro q node' k' n hq hk'
    rcases hs.node _ _ hq with ⟨node, hnode, hpath, -, hchildren⟩ | ⟨-, hnone, -⟩
    · rcases hchildren _ _ hk' with hold | ⟨rfl, rfl, rfl⟩
      · obtain ⟨hlt, hchild⟩ := h.regular q node k' n hnode hold
        refine ⟨Nat.lt_of_lt_of_le hlt hs.nodeNext, fun child' hchild' => ?_⟩
        rcases hs.node _ _ hchild' with ⟨child, hc, hcpath, hcname, -⟩ | ⟨rfl, -⟩
        · rw [hcpath, hcname, hpath]
          exact hchild child hc
        · exact absurd hlt (Nat.not_lt.mpr (hs.fresh.1 _ rfl).1)
      · refine ⟨(hs.fresh.1 _ rfl).2, fun child' hchild' => ?_⟩
        rcases hs.node _ _ hchild' with ⟨child, hc, -⟩ | ⟨-, -, hname, pnode, hp, hcpath⟩
        · -- the address of the new child was not in use
          exact absurd (Heap.lt_next_of_get hc) (Nat.not_lt.mpr (hs.fresh.1 _ rfl).1)
        · obtain rfl := Option.some.inj (hnode.symm.trans hp)
          exact ⟨hname, hcpath.trans (by rw [hpath])⟩
    · rw [hnone] at hk'
      cases hk'
  · intro q node' k' d hq hk'
    rcases hs.node _ _ hq with ⟨node, hnode, hpath, -, hchildren⟩ | ⟨-, hnone, -⟩
    · rcases hchildren _ _ hk' with hold | ⟨rfl, rfl, rfl⟩
      · obtain ⟨hlt, hchild⟩ := h.downstream q node k' d hnode hold
        refine ⟨Nat.lt_of_lt_of_le hlt hs.dnodeNext, fun child' hchild' => ?_⟩
        rcases hs.dnode _ _ hchild' with ⟨child, hc, hcpath, hcname⟩ | ⟨rfl, -⟩
        · rw [hcpath, hcname, hpath]
          exact hchild child hc
        · exact absurd hlt (Nat.not_lt.mpr (hs.fresh.2 _ rfl).1)
      · refine ⟨(hs.fresh.2 _ rfl).2, fun child' hchild' => ?_⟩
        rcases hs.dnode _ _ hchild' with ⟨child, hc, -⟩ | ⟨-, hname, pnode, hp, hcpath⟩
        · exact absurd (Heap.lt_next_of_get hc) (Nat.not_lt.mpr (hs.fresh.2 _ rfl).1)
        · obtain rfl := Option.some.inj (hnode.symm.trans hp)
          exact ⟨hname, hcpath.trans (by rw [hpath])⟩
    · rw [hnone] at hk'
      cases hk'

/-- One more entry in the children of `p`. -/
theorem get_addChild {h : Heap (BrokerNode J)} {p n : NodeId} {k : CString} {r : NodeRef} {node' : BrokerNode J}
    (hn : (h.modify p (fun node => { node with children := node.children.set k r })).get n = some node') :
    ∃ node, h.get n = some node ∧ node'.path = node.path ∧ node'.name = node.name ∧ ∀ k' r',
      node'.children.get k' = some r' → node.children.get k' = some r' ∨ (n = p ∧ k' = k ∧ r' = r) := by
  rw [Heap.get_modify] at hn
  by_cases hnp : n = p
  · rw [if_pos hnp] at hn
    obtain ⟨node, hnode, rfl⟩ := Option.map_eq_some_iff.mp hn
    refine ⟨node, hnp ▸ hnode, rfl, rfl, fun k' r' hk' => ?_⟩
    rw [AssocMap.get_set] at hk'
    split at hk'
    · rename_i hkk
      exact .inr ⟨hnp, hkk, (Option.some.inj hk').symm⟩
    · exact .inl hk'
  · rw [if_neg hnp] at hn
    exact ⟨node', hn, rfl, rfl, fun _ _ hk' => .inl hk'⟩

theorem brokerNodeAdd_adds {p : NodeId} {name : CString} {c : NodeId}
    (h : σ.brokerNodeAdd p name = some (σ', some c)) : Adds σ σ' p name (.regular c) := by
  simp only [brokerNodeAdd, Option.bind_eq_bind, Option.bind_eq_some_iff] at h
  obtain ⟨pnode, hp, h⟩ := h
  split at h
  · cases h
  cases h
  refine ⟨rfl, Nat.le_succ _, Nat.le_refl _, ⟨?_, ?_⟩, ?_, fun d node' hd => .inl ⟨node', hd, rfl, rfl⟩⟩
  · rintro n ⟨⟩
    exact ⟨Nat.le_refl _, Nat.lt_succ_self _⟩
  · rintro d ⟨⟩
  · intro n node' hn
    obtain ⟨node, hnode, hpath, hname, hchildren⟩ := get_addChild hn
    rw [Heap.get_alloc] at hnode
    by_cases hnn : n = σ.node.next
    · subst hnn
      rw [if_pos rfl] at hnode
      obtain rfl := Option.some.inj hnode
      refine .inr ⟨rfl, fun k' => ?_, hname, pnode, hp, hpath⟩
      cases hk' : node'.children.get k' with
      | none => rfl
      | some r' =>
        rcases hchildren k' r' hk' with hold | ⟨hself, -⟩
        · cases hold
        · exact absurd hself.symm (Heap.ne_next_of_get hp)
    · rw [if_neg hnn] at hnode
      exact .inl ⟨node, hnode, hpath, hname, hchildren⟩

theorem brokerInitDownstreamNode_adds {p : NodeId} {name : CString} {d : DownId}
    (h : σ.brokerInitDownstreamNode p name = some (σ', d)) : Adds σ σ' p name (.downstream d) := by
  simp only [brokerInitDownstreamNode, Option.bind_eq_bind, Option.bind_eq_some_iff] at h
  obtain ⟨pnode, hp, h⟩ := h
  cases h
  refine ⟨rfl, Nat.le_refl _, Nat.le_succ _, ⟨?_, ?_⟩, fun n node' hn => .inl (get_addChild hn), ?_⟩
  · rintro n ⟨⟩
  · rintro d ⟨⟩
    exact ⟨Nat.le_refl _, Nat.lt_succ_self _⟩
  · intro e node' he
    have hget : (σ.dnode.alloc _).get e = some node' := he
    rw [Heap.get_alloc] at hget
    split at hget
    · rename_i hed
      obtain rfl := Option.some.inj hget
      exact .inr ⟨by rw [hed], rfl, pnode, hp, rfl⟩
    · exact .inl ⟨node', hget, rfl, rfl⟩

/-! ## The run theorem -/

/-- No call breaks the tree. -/
theorem TreeOk.call {c : Call J} (h : σ.TreeOk) (hs : c.run cfg σ = some σ') : σ'.TreeOk := by
  cases c with
  | newNode parent name =>
    obtain ⟨⟨τ, r⟩, hadd, rfl⟩ := Option.map_eq_some_iff.mp hs
    cases r with
    | some c => exact h.adds (brokerNodeAdd_adds hadd)
    | none =>
      simp only [brokerNodeAdd, Option.bind_eq_bind, Option.bind_eq_some_iff] at hadd
      obtain ⟨pnode, hp, hadd⟩ := hadd
      split at hadd
      · cases hadd
        exact h
      · cases hadd
  | newDnode parent name =>
    obtain ⟨⟨τ, d⟩, hadd, rfl⟩ := Option.map_eq_some_iff.mp hs
    exact h.adds (brokerInitDownstreamNode_adds hadd)
  | setAction n action =>
    obtain rfl := Option.some.inj hs
    exact h.shrinks (.modNode (fun node => ⟨rfl, rfl, fun _ _ hk => hk⟩))
  | orphan ref =>
    obtain rfl := Option.some.inj hs
    exact h.shrinks (.orphan σ ref)
  | dropNode n parent name => exact h.shrinks (.dropNode hs)
  | dropDnode d => exact h.shrinks (.freeDownstreamNode hs)
  | _ => exact h.shrinks (.of_frame (Call.frame hs) (by simp [Call.parts]) (by simp [Call.parts])
      (by simp [Call.parts]))

theorem TreeOk.calls {A : Call J → Prop} (h : σ.TreeOk) (hs : Calls cfg A σ σ') : σ'.TreeOk :=
  Calls.invariant TreeOk hs (fun _ _ _ hinv _ hrun => hinv.call hrun) h

theorem TreeOk.brokerNodeAdd {p : NodeId} {name : CString} {r : Option NodeId} (h : σ.TreeOk)
    (hs : σ.brokerNodeAdd p name = some (σ', r)) : σ'.TreeOk := by
  have hrun : (Call.newNode p name).run smallConfig σ = some σ' := by simp [Call.run, hs]
  exact h.call hrun

/-- The tree with the root only. -/
theorem TreeOk.rootOnly {root : BrokerNode J} (hnode : σ.node = Heap.empty.alloc root) (hroot : σ.root = 0)
    (hpath : root.path = [slash]) (hchildren : root.children = .empty) : σ.TreeOk := by
  have hget : ∀ n node, σ.node.get n = some node → node = root := by
    intro n node hn
    rw [hnode, Heap.get_alloc] at hn
    split at hn
    · exact (Option.some.inj hn).symm
    · cases hn
  refine ⟨?_, ?_, ?_, ?_⟩
  · rw [hnode, hroot]
    exact Nat.zero_lt_one
  · intro node hn
    rw [hget _ _ hn, hpath]
  · intro p node k n hp hk
    rw [hget _ _ hp, hchildren] at hk
    cases hk
  · intro p node k d hp hk
    rw [hget _ _ hp, hchildren] at hk
    cases hk

theorem brokerInit_tree (h : brokerInit = some σ) : σ.TreeOk := by
  simp only [brokerInit, Option.bind_eq_bind, Option.bind_eq_some_iff] at h
  obtain ⟨p1, h1, p2, h2, p3, h3, _, -, p4, h4, _, -, p5, h5, _, -, p6, h6, p7, h7, p8, h8, _, -, _, -, _, -, h⟩ := h
  have h1 : p1.1.TreeOk := by
    apply TreeOk.brokerNodeAdd _ h1
    exact .rootOnly rfl rfl rfl rfl
  have h3 := (h1.brokerNodeAdd h2).brokerNodeAdd h3
  have h4 := h3.calls (addAction_works (N := fun _ => True) trivial h4 : Works smallConfig _ _ _).calls
  have h5 := h4.calls (addAction_works (N := fun _ => True) trivial h5 : Works smallConfig _ _ _).calls
  have h6 := h5.calls (addAction_works (N := fun _ => True) trivial h6 : Works smallConfig _ _ _).calls
  have h8 := (h6.brokerNodeAdd h7).brokerNodeAdd h8
  obtain rfl := Option.some.inj h
  exact ⟨h8.rootLt, h8.root, h8.regular, h8.downstream⟩

/-- In every reachable state children have the names and the paths their parents give them. -/
theorem reach_tree {ok : Broker J → Event J → Prop} (h : Reach (step cfg) ok (fun σ => brokerInit = some σ) σ) :
    σ.TreeOk := by
  refine Reach.invariant TreeOk (fun _ => brokerInit_tree) (fun σ e σ' hinv _ hs => ?_) h
  exact Calls.invariant TreeOk (step_calls hs) (fun _ _ _ hinv _ hrun => hinv.call hrun) hinv

end Broker

/-! ## Looking a path up -/

theorem splitSlash_of_not_mem {a : CString} (h : slash ∉ a) : splitSlash a = (a, none) := by
  induction a with
  | nil => rfl
  | cons c a ih =>
    obtain ⟨hc, ha⟩ := not_or.mp (List.mem_cons.not.mp h)
    rw [splitSlash, if_neg (Ne.symm hc), ih ha]

theorem splitSlash_append {a : CString} (h : slash ∉ a) (rest : CString) :
    splitSlash (a ++ slash :: rest) = (a, some (slash :: rest)) := by
  induction a with
  | nil => simp [splitSlash]
  | cons c a ih =>
    obtain ⟨hc, ha⟩ := not_or.mp (List.mem_cons.not.mp h)
    rw [List.cons_append, splitSlash, if_neg (Ne.symm hc), ih ha]

theorem slash_not_mem_of_split {path name : CString} {rest : Option CString}
    (h : splitSlash path = (name, rest)) : slash ∉ name := by
  have hfst := Broker.slash_not_mem_splitSlash path
  rw [h] at hfst
  exact hfst

namespace Broker

/-- The downstream node `d` is the child `name` of the local node that the root files under `top`. -/
structure LinkAt (σ : Broker J) (top name : CString) (d : DownId) : Prop where
  child : ∃ root parent p, σ.node.get σ.root = some root ∧ root.children.get top = some (.regular p) ∧
    σ.node.get p = some parent ∧ parent.children.get name = some (.downstream d)
  live : ∃ node, σ.dnode.get d = some node

theorem LinkAt.of_get {top name : CString} {p : NodeId} {d : DownId}
    (htop : (σ.node.get σ.root).bind (fun root => root.children.get top) = some (.regular p))
    (hname : (σ.node.get p).bind (fun parent => parent.children.get name) = some (.downstream d))
    (hd : (σ.dnode.get d).isSome) : σ.LinkAt top name d := by
  obtain ⟨root, hroot, htop⟩ := Option.bind_eq_some_iff.mp htop
  obtain ⟨parent, hp, hname⟩ := Option.bind_eq_some_iff.mp hname
  exact ⟨⟨root, parent, p, hroot, htop, hp, hname⟩, Option.isSome_iff_exists.mp hd⟩

/-- The path of a downstream node. -/
def linkPathOf (top name : CString) : CString := slash :: top ++ slash :: name

theorem LinkAt.path (h : σ.TreeOk) {top name : CString} {d : DownId} (hl : σ.LinkAt top name d)
    {node : DownstreamNode J} (hd : σ.dnode.get d = some node) : node.path = linkPathOf top name ∧ node.name = name := by
  obtain ⟨root, parent, p, hroot, htop, hp, hname⟩ := hl.child
  obtain ⟨-, hpath⟩ := (h.regular _ root _ p hroot htop).2 parent hp
  obtain ⟨hdname, hdpath⟩ := (h.downstream p parent _ d hp hname).2 node hd
  refine ⟨?_, hdname⟩
  rw [hdpath, hpath, h.root root hroot]
  rfl

/-- Looking up a path that starts with the path of a downstream node. What is stored through `out` is the text
    after that path; for the path itself it is the name with its slash. -/
theorem brokerNodeGet_link {top name rest : CString} {d : DownId} (hl : σ.LinkAt top name d) (htop : slash ∉ top)
    (hne : top ≠ []) (hname : slash ∉ name) (hrest : rest = [] ∨ rest.head? = some slash)
    (hself : name ≠ [] ∨ rest ≠ []) :
    σ.brokerNodeGet (linkPathOf top name ++ rest)
      = some (some (.downstream d, if rest = [] then slash :: name else rest)) := by
  obtain ⟨root, parent, p, hroot, hget, hp, hchild⟩ := hl.child
  have hlen : (linkPathOf top name ++ rest).length = (top.length + name.length + rest.length) + 2 := by
    simp [linkPathOf]
    omega
  unfold brokerNodeGet
  rw [hlen]
  have hpath : linkPathOf top name ++ rest = slash :: (top ++ slash :: (name ++ rest)) := by simp [linkPathOf]
  rw [hpath, brokerNodeGetLoop, if_neg (by simp [hne])]
  simp only [List.head?_cons, decide_true, if_true, List.tail_cons, splitSlash_append htop, hroot, hget,
    Option.bind_eq_bind, Option.bind_some]
  rw [brokerNodeGetLoop, if_neg (by
    intro h
    obtain ⟨hn, hr⟩ := List.append_eq_nil_iff.mp (List.cons.inj h).2
    rcases hself with h | h
    · exact h hn
    · exact h hr)]
  simp only [List.head?_cons, decide_true, if_true, List.tail_cons]
  rcases hrest with rfl | hrest
  · obtain ⟨c, name', rfl⟩ := List.exists_cons_of_ne_nil (hself.resolve_right (by simp))
    simp [splitSlash_of_not_mem hname, hp, hchild]
  · obtain ⟨rest', rfl⟩ : ∃ rest', rest = slash :: rest' := by
      cases rest with
      | nil => cases hrest
      | cons c rest' => exact ⟨rest', by rw [Option.some.inj hrest]⟩
    simp [splitSlash_append hname, hp, hchild]

/-- A downstream node without a name is not found under its path: that is its parent with a slash after it. -/
theorem brokerNodeGet_link_nameless {top : CString} {d : DownId} (hl : σ.LinkAt top [] d) (htop : slash ∉ top)
    (hne : top ≠ []) : ∃ p, σ.brokerNodeGet (linkPathOf top []) = some (some (.regular p, [])) := by
  obtain ⟨root, parent, p, hroot, hget, -⟩ := hl.child
  refine ⟨p, ?_⟩
  have hlen : (linkPathOf top []).length = top.length + 2 := by simp [linkPathOf]
  unfold brokerNodeGet
  rw [hlen]
  show brokerNodeGetLoop σ _ σ.root (slash :: (top ++ slash :: [])) = _
  rw [brokerNodeGetLoop, if_neg (by simp [hne])]
  simp only [List.head?_cons, decide_true, if_true, List.tail_cons, splitSlash_append htop, hroot, hget,
    Option.bind_eq_bind, Option.bind_some]
  rw [brokerNodeGetLoop, if_pos rfl]

/-- What is found is where the lookup starts, or it is filed under one segment of a path. -/
theorem brokerNodeGetLoop_found {fuel : Nat} {n : NodeId} {path out : CString} {r : NodeRef}
    (h : σ.brokerNodeGetLoop fuel n path = some (some (r, out))) : r = .regular n ∨
      ∃ p node name, slash ∉ name ∧ σ.node.get p = some node ∧ node.children.get name = some r := by
  induction fuel generalizing n path with
  | zero =>
    cases h
    exact .inl rfl
  | succ fuel ih =>
    rw [brokerNodeGetLoop] at h
    split at h
    · cases h
      exact .inl rfl
    · dsimp only at h
      split at h
      · rename_i name rest heq
        simp only [Option.bind_eq_bind, Option.bind_eq_some_iff] at h
        obtain ⟨node, hnode, h⟩ := h
        split at h
        · cases h
        · rename_i e hchild
          cases h
          exact .inr ⟨n, node, name, slash_not_mem_of_split heq, hnode, hchild⟩
        · rename_i c hchild
          rcases ih h with rfl | hfound
          · exact .inr ⟨n, node, name, slash_not_mem_of_split heq, hnode, hchild⟩
          · exact .inr hfound
      · cases h
        exact .inl rfl
      · rename_i name hne heq
        simp only [Option.bind_eq_bind, Option.bind_eq_some_iff] at h
        obtain ⟨node, hnode, h⟩ := h
        split at h
        · cases h
        · rename_i e hchild
          cases h
          exact .inr ⟨n, node, name, slash_not_mem_of_split heq, hnode, hchild⟩
        · rename_i c hchild
          cases h
          exact .inr ⟨n, node, name, slash_not_mem_of_split heq, hnode, hchild⟩

/-- Only a downstream node without a slash in its name is found. -/
theorem brokerNodeGet_slash_free (h : σ.TreeOk) {path out : CString} {d : DownId} {node : DownstreamNode J}
    (hget : σ.brokerNodeGet path = some (some (.downstream d, out))) (hd : σ.dnode.get d = some node) :
    slash ∉ node.name := by
  rcases brokerNodeGetLoop_found hget with hroot | ⟨p, parent, name, hslash, hp, hchild⟩
  · cases hroot
  · rw [((h.downstream p parent name d hp hchild).2 node hd).1]
    exact hslash

end Broker

end DSLink
