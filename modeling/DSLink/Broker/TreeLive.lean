import DSLink.Broker.PermissionMax
import DSLink.Broker.Tree

/-!
# `Broker.TreeLive` — no entry in the tree dangles

`broker_node_free` cuts a child off before it frees it, and takes a node out of its parent at the end, under the name
that the node has. So every entry of a node that stays points to a node that is there, and that knows its parent and
its name.

## Contents
- `placeOf`, `PlacedBut`: the entries of all nodes but those that are being freed.
- `brokerNodeFree_placed`: freeing a node.
- `reach_treeLive`: every reachable state, as long as the root is not freed.
-/

namespace DSLink

variable {J : Type} {cfg : Config}

/-- A call that neither cuts a child off nor frees a local node. -/
def Call.plain : Call J → Prop
  | .orphan _ | .dropNode .. => False
  | _ => True

namespace Broker

/-- Nothing in the tree dangles. -/
structure TreeLive {J : Type} (σ : Broker J) : Prop extends σ.ChildrenLive where
  link : ∀ p node k d, σ.node.get p = some node → node.children.get k = some (.downstream d) →
    (σ.dnode.get d).isSome

variable {σ σ' τ : Broker J} {D : NodeId → Prop} {r : NodeRef}

/-- The parent and the name of a node. -/
def placeOf (σ : Broker J) : NodeRef → Option (Option NodeId × CString)
  | .regular n => (σ.node.get n).map (fun node => (node.parent, node.name))
  | .downstream d => (σ.dnode.get d).map (fun node => (node.parent, node.name))

/-- The children of the nodes outside `D` know where they are. -/
def PlacedBut (σ : Broker J) (D : NodeId → Prop) : Prop :=
  ∀ p node k r, ¬D p → σ.node.get p = some node → node.children.get k = some r → σ.placeOf r = some (some p, k)

/-- A child is younger than its parent. -/
def Younger (σ : Broker J) : Prop :=
  ∀ p node k n, σ.node.get p = some node → node.children.get k = some (.regular n) → p < n

/-- No node outside `D` has `r`. -/
def Unlisted (σ : Broker J) (D : NodeId → Prop) (r : NodeRef) : Prop :=
  ∀ p node k, ¬D p → σ.node.get p = some node → node.children.get k ≠ some r

/-- Nodes and entries go; what stays does not move. -/
structure Fewer (σ σ' : Broker J) : Prop where
  node : ∀ p node', σ'.node.get p = some node' → ∃ node, σ.node.get p = some node ∧
    ∀ k r, node'.children.get k = some r → node.children.get k = some r
  place : ∀ r x, σ'.placeOf r = some x → σ.placeOf r = some x

theorem Fewer.refl (σ : Broker J) : Fewer σ σ := ⟨fun _ node' h => ⟨node', h, fun _ _ hk => hk⟩, fun _ _ h => h⟩

theorem Fewer.trans (h : Fewer σ τ) (h' : Fewer τ σ') : Fewer σ σ' := by
  refine ⟨fun p node'' hp => ?_, fun r x hx => h.place r x (h'.place r x hx)⟩
  obtain ⟨node', hp', hless'⟩ := h'.node p node'' hp
  obtain ⟨node, hp, hless⟩ := h.node p node' hp'
  exact ⟨node, hp, fun k r hk => hless k r (hless' k r hk)⟩

theorem Younger.fewer (h : σ.Younger) (hs : Fewer σ σ') : σ'.Younger := by
  intro p node' k n hp hk
  obtain ⟨node, hp, hless⟩ := hs.node p node' hp
  exact h p node k n hp (hless k _ hk)

theorem Unlisted.fewer (h : σ.Unlisted D r) (hs : Fewer σ σ') : σ'.Unlisted D r := by
  intro p node' k hD hp hk
  obtain ⟨node, hp, hless⟩ := hs.node p node' hp
  exact h p node k hD hp (hless k r hk)

/-- What nobody has can change or go. -/
theorem PlacedBut.gone (h : σ.PlacedBut D) (hun : σ.Unlisted D r)
    (hnode : ∀ p node', ¬D p → σ'.node.get p = some node' → ∃ node, σ.node.get p = some node ∧
      ∀ k r, node'.children.get k = some r → node.children.get k = some r)
    (hplace : ∀ r', r' ≠ r → σ'.placeOf r' = σ.placeOf r') : σ'.PlacedBut D := by
  intro p node' k r' hD hp hk
  obtain ⟨node, hp, hless⟩ := hnode p node' hD hp
  have hk := hless k r' hk
  have hne : r' ≠ r := by
    rintro rfl
    exact hun p node k hD hp hk
  rw [hplace r' hne]
  exact h p node k r' hD hp hk

/-- A node that knows its place is listed there only. -/
theorem PlacedBut.listed (h : σ.PlacedBut D) {parent : Option NodeId} {name : CString}
    (hr : ∀ x, σ.placeOf r = some x → x = (parent, name)) {p : NodeId} {node : BrokerNode J} {k : CString} (hD : ¬D p)
    (hp : σ.node.get p = some node) (hk : node.children.get k = some r) : parent = some p ∧ name = k := by
  have hx := hr _ (h p node k r hD hp hk)
  exact ⟨(congrArg Prod.fst hx).symm, (congrArg Prod.snd hx).symm⟩

theorem get_modNode_children {n p : NodeId} {f : BrokerNode J → BrokerNode J} {node' : BrokerNode J}
    (h : (σ.modNode n f).node.get p = some node') :
    ∃ node, σ.node.get p = some node ∧ (p ≠ n ∧ node' = node ∨ p = n ∧ node' = f node) := by
  have h : (σ.node.modify n f).get p = some node' := h
  rw [Heap.get_modify] at h
  split at h
  · rename_i he
    obtain ⟨node, hn, rfl⟩ := Option.map_eq_some_iff.mp h
    exact ⟨node, by rw [he]; exact hn, .inr ⟨he, rfl⟩⟩
  · rename_i hne
    exact ⟨node', h, .inl ⟨hne, rfl⟩⟩

theorem place_modify {h : Heap (BrokerNode J)} {n m : NodeId} {f : BrokerNode J → BrokerNode J}
    (hf : ∀ node, (f node).parent = node.parent ∧ (f node).name = node.name) :
    ((h.modify n f).get m).map (fun node => (node.parent, node.name))
      = (h.get m).map (fun node => (node.parent, node.name)) := by
  rw [Heap.get_modify]
  split
  · rename_i he
    rw [he, Option.map_map]
    refine Option.map_congr (fun node _ => ?_)
    show ((f node).parent, (f node).name) = _
    rw [(hf node).1, (hf node).2]
  · rfl

theorem placeOf_modNode {n : NodeId} {f : BrokerNode J → BrokerNode J}
    (hf : ∀ node, (f node).parent = node.parent ∧ (f node).name = node.name) (r : NodeRef) :
    (σ.modNode n f).placeOf r = σ.placeOf r := by
  cases r with
  | downstream d => rfl
  | regular m => exact place_modify hf

/-- A step outside of the tree. -/
theorem fewer_of_frame {ps : List Part} (h : Frame ps σ σ') (hn : Part.nodes ∉ ps) (hd : Part.downs ∉ ps) :
    Fewer σ σ' ∧ ∀ r, σ'.placeOf r = σ.placeOf r := by
  have hnode : Heap.Rel (BrokerNode.Agree .nodes) σ.node σ'.node := h .nodes hn
  have hdnode : Heap.Rel (DownstreamNode.Agree .downs) σ.dnode σ'.dnode := h .downs hd
  have hplace : ∀ r, σ'.placeOf r = σ.placeOf r := by
    intro r
    cases r with
    | regular n =>
      show (σ'.node.get n).map _ = (σ.node.get n).map _
      cases hn' : σ'.node.get n with
      | none => rw [hnode.get_none.mp hn']
      | some node' =>
        obtain ⟨node, hn, -, hname, hparent, -⟩ := hnode.get_rev hn'
        rw [hn, Option.map_some, Option.map_some, hname, hparent]
    | downstream d =>
      show (σ'.dnode.get d).map _ = (σ.dnode.get d).map _
      cases hd' : σ'.dnode.get d with
      | none => rw [hdnode.get_none.mp hd']
      | some node' =>
        obtain ⟨node, hd, -, hname, hparent⟩ := hdnode.get_rev hd'
        rw [hd, Option.map_some, Option.map_some, hname, hparent]
  refine ⟨⟨fun p node' hp => ?_, fun r x hx => by rwa [hplace] at hx⟩, hplace⟩
  obtain ⟨node, hp, -, -, -, hchildren, -⟩ := hnode.get_rev hp
  exact ⟨node, hp, fun k r hk => by rwa [hchildren] at hk⟩

theorem PlacedBut.frame {ps : List Part} (h : σ.PlacedBut D) (hf : Frame ps σ σ') (hn : Part.nodes ∉ ps)
    (hd : Part.downs ∉ ps) : σ'.PlacedBut D := by
  obtain ⟨hfewer, hplace⟩ := fewer_of_frame hf hn hd
  intro p node' k r hD hp hk
  obtain ⟨node, hp, hless⟩ := hfewer.node p node' hp
  rw [hplace]
  exact h p node k r hD hp (hless k r hk)

/-! ## New nodes -/

/-- The entries of all nodes are right. -/
structure TreeOrdered (σ : Broker J) : Prop where
  placed : σ.PlacedBut (fun _ => False)
  younger : σ.Younger

/-- A new node knows where it is. -/
theorem TreeOrdered.add {p : NodeId} {name : CString} {c : Option NodeId} (h : σ.TreeOrdered)
    (hs : σ.brokerNodeAdd p name = some (σ', c)) : σ'.TreeOrdered := by
  simp only [brokerNodeAdd, Option.bind_eq_bind, Option.bind_eq_some_iff] at hs
  obtain ⟨pnode, hp, hs⟩ := hs
  split at hs
  · cases hs
    exact h
  · cases hs
    have hentry : ∀ q node' k r, ((σ.node.alloc ⟨childPath pnode.path name, name, some p, .empty, none, none, none⟩).modify
        p (fun node => { node with children := node.children.set name (.regular σ.node.next) })).get q = some node' →
        node'.children.get k = some r → (∃ node, σ.node.get q = some node ∧ node.children.get k = some r) ∨
          (q = p ∧ k = name ∧ r = .regular σ.node.next) := by
      intro q node' k r hq hk
      obtain ⟨node, hn, -, -, hchildren⟩ := get_addChild hq
      rw [Heap.get_alloc] at hn
      rcases hchildren k r hk with hold | hnew
      · split at hn
        · obtain rfl := Option.some.inj hn
          cases hold
        · exact .inl ⟨node, hn, hold⟩
      · exact .inr hnew
    have hne : σ.node.next ≠ p := (Heap.ne_next_of_get hp).symm
    refine ⟨?_, ?_⟩
    · intro q node' k r _ hq hk
      rcases hentry q node' k r hq hk with ⟨node, hn, hold⟩ | ⟨rfl, rfl, rfl⟩
      · have hplace := h.placed q node k r id hn hold
        cases r with
        | downstream d => exact hplace
        | regular m =>
          obtain ⟨child, hm, hchild⟩ := Option.map_eq_some_iff.mp hplace
          have hmn : m ≠ σ.node.next := Heap.ne_next_of_get hm
          refine (place_modify (by intros; exact ⟨rfl, rfl⟩)).trans ?_
          rw [Heap.get_alloc, if_neg hmn, hm]
          exact congrArg some hchild
      · show (((σ.node.alloc _).modify q _).get σ.node.next).map _ = _
        rw [Heap.get_modify_ne hne, Heap.get_alloc_next]
        rfl
    · intro q node' k n hq hk
      rcases hentry q node' k _ hq hk with ⟨node, hn, hold⟩ | ⟨rfl, -, hnew⟩
      · exact h.younger q node k n hn hold
      · cases hnew
        exact Heap.lt_next_of_get hp

theorem TreeOrdered.addDownstream {p : NodeId} {name : CString} {d : DownId} (h : σ.TreeOrdered)
    (hs : σ.brokerInitDownstreamNode p name = some (σ', d)) : σ'.TreeOrdered := by
  simp only [brokerInitDownstreamNode, Option.bind_eq_bind, Option.bind_eq_some_iff] at hs
  obtain ⟨pnode, hp, hs⟩ := hs
  cases hs
  have hentry : ∀ q node' k r, (σ.node.modify p (fun node =>
      { node with children := node.children.set name (.downstream σ.dnode.next) })).get q = some node' →
      node'.children.get k = some r → (∃ node, σ.node.get q = some node ∧ node.children.get k = some r) ∨
        (q = p ∧ k = name ∧ r = .downstream σ.dnode.next) := by
    intro q node' k r hq hk
    obtain ⟨node, hn, -, -, hchildren⟩ := get_addChild hq
    exact (hchildren k r hk).imp (fun hold => ⟨node, hn, hold⟩) id
  refine ⟨?_, ?_⟩
  · intro q node' k r _ hq hk
    rcases hentry q node' k r hq hk with ⟨node, hn, hold⟩ | ⟨rfl, rfl, rfl⟩
    · have hplace := h.placed q node k r id hn hold
      cases r with
      | regular m =>
        exact (place_modify (by intros; exact ⟨rfl, rfl⟩)).trans hplace
      | downstream e =>
        obtain ⟨child, he, hchild⟩ := Option.map_eq_some_iff.mp hplace
        show ((σ.dnode.alloc _).get e).map _ = _
        rw [Heap.get_alloc, if_neg (Heap.ne_next_of_get he), he]
        exact congrArg some hchild
    · show ((σ.dnode.alloc _).get σ.dnode.next).map _ = _
      rw [Heap.get_alloc_next]
      rfl
  · intro q node' k n hq hk
    rcases hentry q node' k _ hq hk with ⟨node, hn, hold⟩ | ⟨-, -, hnew⟩
    · exact h.younger q node k n hn hold
    · cases hnew

theorem TreeOrdered.frame {ps : List Part} (h : σ.TreeOrdered) (hf : Frame ps σ σ') (hn : Part.nodes ∉ ps)
    (hd : Part.downs ∉ ps) : σ'.TreeOrdered :=
  ⟨h.placed.frame hf hn hd, h.younger.fewer (fewer_of_frame hf hn hd).1⟩

theorem TreeOrdered.action {n : NodeId} {action : DataAction} (h : σ.TreeOrdered) :
    (σ.modNode n (fun node => { node with onInvoke := some action })).TreeOrdered := by
  have hnode : ∀ p node', (σ.modNode n (fun node => { node with onInvoke := some action })).node.get p = some node' →
      ∃ node, σ.node.get p = some node ∧ node'.children = node.children := by
    intro p node' hp
    obtain ⟨node, hn, ⟨-, rfl⟩ | ⟨-, rfl⟩⟩ := get_modNode_children hp
    · exact ⟨node', hn, rfl⟩
    · exact ⟨node, hn, rfl⟩
  refine ⟨fun p node' k r _ hp hk => ?_, fun p node' k m hp hk => ?_⟩
  · obtain ⟨node, hn, he⟩ := hnode p node' hp
    refine (placeOf_modNode (by intros; exact ⟨rfl, rfl⟩) r).trans ?_
    exact h.placed p node k r id hn (by rw [← he]; exact hk)
  · obtain ⟨node, hn, he⟩ := hnode p node' hp
    exact h.younger p node k m hn (by rw [← he]; exact hk)

/-- The tree with the root only. -/
theorem TreeOrdered.rootOnly {root : BrokerNode J} (hnode : σ.node = Heap.empty.alloc root)
    (hchildren : root.children = .empty) : σ.TreeOrdered := by
  have hnone : ∀ p node k r, σ.node.get p = some node → node.children.get k ≠ some r := by
    intro p node k r hp hk
    rw [hnode, Heap.get_alloc] at hp
    split at hp
    · obtain rfl := Option.some.inj hp
      rw [hchildren] at hk
      cases hk
    · cases hp
  exact ⟨fun p node k r _ hp hk => absurd hk (hnone p node k r hp),
    fun p node k n hp hk => absurd hk (hnone p node k _ hp)⟩

/-! ## Steps of `broker_node_free` -/

/-- The entry of a node is taken out of its parent. -/
theorem leaveParent_placed {parent : Option NodeId} {name : CString} (h : σ.PlacedBut D)
    (hr : ∀ x, σ.placeOf r = some x → x = (parent, name)) (hs : σ.leaveParent parent name = some τ) :
    τ.PlacedBut D ∧ Fewer σ τ ∧ τ.Unlisted D r ∧ τ.dnode = σ.dnode ∧ ∀ r', τ.placeOf r' = σ.placeOf r' := by
  unfold leaveParent at hs
  split at hs
  · cases hs
    refine ⟨h, .refl _, fun p node k hD hp hk => ?_, rfl, fun _ => rfl⟩
    cases (h.listed hr hD hp hk).1
  · rename_i q
    obtain ⟨qnode, -, rfl⟩ := Option.map_eq_some_iff.mp hs
    have hplace : ∀ r', (σ.modNode q (fun parent => { parent with children := parent.children.erase name })).placeOf r'
        = σ.placeOf r' := placeOf_modNode (fun _ => ⟨rfl, rfl⟩)
    have hnode : ∀ p node',
        (σ.modNode q (fun parent => { parent with children := parent.children.erase name })).node.get p = some node' →
        ∃ node, σ.node.get p = some node ∧ ∀ k r, node'.children.get k = some r →
          node.children.get k = some r ∧ ¬(p = q ∧ k = name) := by
      intro p node' hp
      obtain ⟨node, hn, ⟨hne, rfl⟩ | ⟨rfl, rfl⟩⟩ := get_modNode_children hp
      · exact ⟨node', hn, fun k r hk => ⟨hk, fun he => hne he.1⟩⟩
      · exact ⟨node, hn, fun k r hk => ⟨(AssocMap.get_erase_eq_some.mp hk).2,
          fun he => (AssocMap.get_erase_eq_some.mp hk).1 he.2⟩⟩
    refine ⟨?_, ⟨?_, ?_⟩, ?_, rfl, hplace⟩
    · intro p node' k r' hD hp hk
      obtain ⟨node, hn, hless⟩ := hnode p node' hp
      rw [hplace]
      exact h p node k r' hD hn (hless k r' hk).1
    · intro p node' hp
      obtain ⟨node, hn, hless⟩ := hnode p node' hp
      exact ⟨node, hn, fun k r' hk => (hless k r' hk).1⟩
    · intro r' x hx
      rwa [hplace] at hx
    · intro p node' k hD hp hk
      obtain ⟨node, hn, hless⟩ := hnode p node' hp
      obtain ⟨hold, hne⟩ := hless k r hk
      obtain ⟨hparent, hname⟩ := h.listed hr hD hn hold
      exact hne ⟨(Option.some.inj hparent).symm, hname.symm⟩

/-- A child that nobody else has is cut off. -/
theorem orphan_placed (h : σ.PlacedBut D) (hun : σ.Unlisted D r) : (σ.orphan r).PlacedBut D ∧
    (∀ r', r' ≠ r → (σ.orphan r).placeOf r' = σ.placeOf r') ∧
    ∀ p node', (σ.orphan r).node.get p = some node' → ∃ node, σ.node.get p = some node ∧
      ∀ k r, node'.children.get k = some r → node.children.get k = some r := by
  have hnode : ∀ p node', (σ.orphan r).node.get p = some node' → ∃ node, σ.node.get p = some node ∧
      ∀ k r, node'.children.get k = some r → node.children.get k = some r := by
    intro p node' hp
    cases r with
    | downstream d => exact ⟨node', hp, fun _ _ hk => hk⟩
    | regular n =>
      obtain ⟨node, hn, ⟨-, rfl⟩ | ⟨-, rfl⟩⟩ := get_modNode_children hp
      · exact ⟨node', hn, fun _ _ hk => hk⟩
      · exact ⟨node, hn, fun _ _ hk => hk⟩
  have hplace : ∀ r', r' ≠ r → (σ.orphan r).placeOf r' = σ.placeOf r' := by
    intro r' hne
    cases r <;> cases r'
    case regular.regular n m =>
      have hmn : m ≠ n := by
        rintro rfl
        exact hne rfl
      show ((σ.node.modify n _).get m).map _ = _
      rw [Heap.get_modify_ne hmn]
      rfl
    case downstream.downstream d e =>
      have hed : e ≠ d := by
        rintro rfl
        exact hne rfl
      show ((σ.dnode.modify d _).get e).map _ = _
      rw [Heap.get_modify_ne hed]
      rfl
    all_goals rfl
  exact ⟨h.gone hun (fun p node' _ hp => hnode p node' hp) hplace, hplace, hnode⟩

theorem freeChildren_eq (free : Broker J → NodeRef → Option (Broker J)) (σ : Broker J) (r : NodeRef)
    (rest : List NodeRef) :
    freeChildren free σ (r :: rest) = (free (σ.orphan r) r).bind (fun σ => freeChildren free σ rest) := by
  cases r <;> rfl

/-- What a step that frees a node does to the tree. -/
structure Freed (σ σ' : Broker J) (D : NodeId → Prop) (r : NodeRef) : Prop where
  placed : σ'.PlacedBut D
  fewer : Fewer σ σ'
  gone : σ'.placeOf r = none

theorem freeDownstreamNode_freed {d : DownId} (h : σ.PlacedBut D) (hs : σ.freeDownstreamNode d = some σ') :
    Freed σ σ' D (.downstream d) := by
  simp only [freeDownstreamNode, Option.bind_eq_bind, Option.bind_eq_some_iff] at hs
  obtain ⟨node, hd, hs⟩ := hs
  split at hs
  · cases hs
  · simp only [Option.bind_eq_some_iff] at hs
    obtain ⟨τ, hτ, hs⟩ := hs
    obtain rfl := Option.some.inj hs
    obtain ⟨hplaced, hfewer, hun, hdnode, hplace⟩ := leaveParent_placed (r := .downstream d) h (fun x hx => by
      simp only [placeOf, hd, Option.map_some] at hx
      exact (Option.some.inj hx).symm) hτ
    have hgone : ∀ r' x, placeOf { τ with dnode := τ.dnode.free d } r' = some x → τ.placeOf r' = some x := by
      intro r' x hx
      cases r' with
      | regular n => exact hx
      | downstream e =>
        obtain ⟨child, hchild, rfl⟩ := Option.map_eq_some_iff.mp hx
        exact Option.map_eq_some_iff.mpr ⟨child, (Heap.get_free_eq_some.mp hchild).2, rfl⟩
    refine ⟨hplaced.gone hun (fun p node' _ hp => ⟨node', hp, fun _ _ hk => hk⟩) ?_, hfewer.trans ⟨?_, hgone⟩, ?_⟩
    · intro r' hne
      cases r' with
      | regular n => rfl
      | downstream e =>
        have hed : e ≠ d := by
          rintro rfl
          exact hne rfl
        show ((τ.dnode.free d).get e).map _ = _
        rw [Heap.get_free_ne hed]
        rfl
    · exact fun p node' hp => ⟨node', hp, fun _ _ hk => hk⟩
    · show ((τ.dnode.free d).get d).map _ = none
      rw [Heap.get_free_self]
      rfl

/-- The end of `broker_node_free` on a local node. -/
theorem dropNode_freed {n : NodeId} {parent : Option NodeId} {name : CString} (h : σ.PlacedBut (fun p => D p ∨ p = n))
    (hr : ∀ x, σ.placeOf (.regular n) = some x → x = (parent, name)) (hτ : σ.leaveParent parent name = some τ) :
    Freed σ { τ with node := τ.node.free n } D (.regular n) := by
  obtain ⟨hplaced, hfewer, hun, hdnode, hplace⟩ := leaveParent_placed h hr hτ
  have hget : ∀ p node', (τ.node.free n).get p = some node' → p ≠ n ∧ τ.node.get p = some node' :=
    fun p node' hp => Heap.get_free_eq_some.mp hp
  have hkeep : ∀ r', r' ≠ .regular n → placeOf { τ with node := τ.node.free n } r' = τ.placeOf r' := by
    intro r' hne
    cases r' with
    | downstream e => rfl
    | regular m =>
      have hmn : m ≠ n := by
        rintro rfl
        exact hne rfl
      show ((τ.node.free n).get m).map _ = _
      rw [Heap.get_free_ne hmn]
      rfl
  have hgone : placeOf { τ with node := τ.node.free n } (.regular n) = none := by
    show ((τ.node.free n).get n).map _ = none
    rw [Heap.get_free_self]
    rfl
  refine ⟨?_, hfewer.trans ⟨?_, ?_⟩, hgone⟩
  · intro p node' k r' hD hp hk
    obtain ⟨hne, hp⟩ := hget p node' hp
    have hD' : ¬(D p ∨ p = n) := fun hor => hor.elim hD hne
    have hr' : r' ≠ .regular n := by
      rintro rfl
      exact hun p node' k hD' hp hk
    rw [hkeep r' hr']
    exact hplaced p node' k r' hD' hp hk
  · exact fun p node' hp => ⟨node', (hget p node' hp).2, fun _ _ hk => hk⟩
  · intro r' x hx
    by_cases hr' : r' = .regular n
    · rw [hr', hgone] at hx
      cases hx
    · rwa [hkeep r' hr'] at hx

/-! ## The loops of `broker_node_free` -/

/-- Where a node may be freed: it is younger than the nodes around it that are being freed. -/
def Below (D : NodeId → Prop) (r : NodeRef) : Prop := ∀ n, r = .regular n → ∀ p, D p → p < n

theorem freeChildren_placed {free : Broker J → NodeRef → Option (Broker J)} {refs : List NodeRef}
    (hfree : ∀ σ σ' r, σ.PlacedBut D → σ.Younger → Below D r → free σ r = some σ' → Freed σ σ' D r)
    (h : σ.PlacedBut D) (hy : σ.Younger) (hrefs : ∀ r ∈ refs, Below D r ∧ σ.Unlisted D r)
    (hs : freeChildren free σ refs = some σ') : σ'.PlacedBut D ∧ Fewer σ σ' := by
  induction refs generalizing σ with
  | nil =>
    cases hs
    exact ⟨h, .refl _⟩
  | cons r rest ih =>
    rw [freeChildren_eq] at hs
    obtain ⟨τ, hτ, hs⟩ := Option.bind_eq_some_iff.mp hs
    obtain ⟨hbelow, hun⟩ := hrefs r List.mem_cons_self
    obtain ⟨horphan, hplace, hnode⟩ := orphan_placed h hun
    have hyo : (σ.orphan r).Younger := by
      intro p node' k n hp hk
      obtain ⟨node, hp, hless⟩ := hnode p node' hp
      exact hy p node k n hp (hless k _ hk)
    have hfreed := hfree _ _ r horphan hyo hbelow hτ
    -- the child that was cut off is gone
    have hfewer : Fewer σ τ := by
      refine ⟨fun p node' hp => ?_, fun r' x hx => ?_⟩
      · obtain ⟨node1, hp1, hless1⟩ := hfreed.fewer.node p node' hp
        obtain ⟨node, hp, hless⟩ := hnode p node1 hp1
        exact ⟨node, hp, fun k r hk => hless k r (hless1 k r hk)⟩
      · by_cases hr : r' = r
        · rw [hr, hfreed.gone] at hx
          cases hx
        · rw [← hplace r' hr]
          exact hfreed.fewer.place r' x hx
    obtain ⟨hplaced, hfewer'⟩ := ih hfreed.placed (hy.fewer hfewer)
      (fun r' hr' => ⟨(hrefs r' (List.mem_cons_of_mem _ hr')).1,
        (hrefs r' (List.mem_cons_of_mem _ hr')).2.fewer hfewer⟩) hs
    exact ⟨hplaced, hfewer.trans hfewer'⟩

theorem brokerNodeFreeLoop_freed {fuel : Nat} (h : σ.PlacedBut D) (hy : σ.Younger) (hbelow : Below D r)
    (hs : brokerNodeFreeLoop fuel σ r = some σ') : Freed σ σ' D r := by
  induction fuel generalizing σ σ' D r with
  | zero => cases hs
  | succ fuel ih =>
    cases r with
    | downstream d => exact freeDownstreamNode_freed h hs
    | regular n =>
      simp only [brokerNodeFreeLoop, Option.bind_eq_bind, Option.bind_eq_some_iff] at hs
      obtain ⟨node, hn, τ, hτ, υ, hυ, ω, hω, hs⟩ := hs
      obtain rfl := Option.some.inj hs
      have hDn : ¬D n := fun hD => Nat.lt_irrefl n (hbelow n rfl n hD)
      have hmore : σ.PlacedBut (fun p => D p ∨ p = n) := fun p node k r hD => h p node k r (fun hp => hD (.inl hp))
      have hchildren : ∀ r' ∈ node.children.values, Below (fun p => D p ∨ p = n) r' ∧
          σ.Unlisted (fun p => D p ∨ p = n) r' := by
        intro r' hr'
        obtain ⟨k, hk⟩ := AssocMap.mem_values.mp hr'
        refine ⟨?_, ?_⟩
        · rintro m rfl p (hD | rfl)
          · exact Nat.lt_trans (hbelow n rfl p hD) (hy n node k m hn hk)
          · exact hy p node k m hn hk
        · -- the child knows that its parent is `n`
          intro p pnode k' hD hp hk'
          have hself := h n node k r' hDn hn hk
          have hother := h p pnode k' r' (fun hp => hD (.inl hp)) hp hk'
          cases hself.symm.trans hother
          exact hD (.inr rfl)
      obtain ⟨hτp, hτf⟩ := freeChildren_placed (fun σ σ' r h hy hb hs => ih h hy hb hs) hmore hy hchildren hτ
      have hυf : Frame streamFreeParts τ υ := by
        unfold freeStreamIfAny at hυ
        split at hυ
        · cases hυ
          exact .refl _ _
        · exact .brokerStreamFree hυ
      have hυp := hτp.frame hυf (by decide) (by decide)
      obtain ⟨hυfewer, -⟩ := fewer_of_frame hυf (by decide) (by decide)
      have hplace : ∀ x, υ.placeOf (.regular n) = some x → x = (node.parent, node.name) := by
        intro x hx
        have hx := hτf.place _ x (hυfewer.place _ x hx)
        simp only [placeOf, hn, Option.map_some] at hx
        exact (Option.some.inj hx).symm
      have hfreed := dropNode_freed hυp hplace hω
      exact ⟨hfreed.placed, hτf.trans (hυfewer.trans hfreed.fewer), hfreed.gone⟩

/-! ## Handlers -/

theorem TreeOrdered.free {n : NodeId} (h : σ.TreeOrdered) (hs : σ.brokerNodeFree (.regular n) = some σ') :
    σ'.TreeOrdered := by
  have hfreed := brokerNodeFreeLoop_freed h.placed h.younger (fun _ _ _ hD => hD.elim) hs
  exact ⟨hfreed.placed, h.younger.fewer hfreed.fewer⟩

theorem TreeOrdered.call {c : Call J} (h : σ.TreeOrdered) (hc : c.plain) (hs : c.run cfg σ = some σ') :
    σ'.TreeOrdered := by
  cases c with
  | orphan r => exact hc.elim
  | dropNode n parent name => exact hc.elim
  | newNode parent name =>
    obtain ⟨⟨τ, r⟩, hadd, rfl⟩ := Option.map_eq_some_iff.mp hs
    exact h.add hadd
  | newDnode parent name =>
    obtain ⟨⟨τ, d⟩, hadd, rfl⟩ := Option.map_eq_some_iff.mp hs
    exact h.addDownstream hadd
  | setAction n action =>
    obtain rfl := Option.some.inj hs
    exact h.action
  | dropDnode d =>
    have hfreed := freeDownstreamNode_freed h.placed hs
    exact ⟨hfreed.placed, h.younger.fewer hfreed.fewer⟩
  | _ => exact h.frame (Call.frame hs) (by simp [Call.parts]) (by simp [Call.parts])

theorem TreeOrdered.calls {A : Call J → Prop} (h : σ.TreeOrdered) (hA : ∀ c, A c → c.plain) (hs : Calls cfg A σ σ') :
    σ'.TreeOrdered :=
  Calls.invariant TreeOrdered hs (fun _ c _ hinv hc hrun => hinv.call (hA c hc) hrun) h

theorem TreeOrdered.updateValue {n : NodeId} {value now : J} (h : σ.TreeOrdered)
    (hs : brokerNodeUpdateValue cfg σ n value now = some σ') : σ'.TreeOrdered := by
  simp only [brokerNodeUpdateValue, Option.bind_eq_bind, Option.bind_eq_some_iff] at hs
  obtain ⟨node, -, hs⟩ := hs
  have hset : (σ.modNode n (fun node => { node with value := some value })).TreeOrdered := by
    have hrun : (Call.setNodeValue n value).run cfg σ = some _ := rfl
    exact h.call (by trivial) hrun
  split at hs
  · cases hs
    exact hset
  · exact hset.calls (fun c => by cases c <;> simp [Call.updates, Call.plain]) (brokerUpdateSubStream_calls hs)

theorem TreeOrdered.handlePending {n : NodeId} {now : J} (h : σ.TreeOrdered)
    (hs : σ.handlePendingSub cfg n now = some σ') : σ'.TreeOrdered := by
  simp only [handlePendingSub, Option.bind_eq_bind, Option.bind_eq_some_iff] at hs
  obtain ⟨node, -, hs⟩ := hs
  split at hs
  · cases hs
    exact h
  · rename_i subs _
    simp only [Option.bind_eq_some_iff] at hs
    obtain ⟨τ, hτ, hs⟩ := hs
    have hdrop : { σ with localPendingSub := σ.localPendingSub.erase node.path }.TreeOrdered := by
      have hrun : (Call.dropLocal node.path).run cfg σ = some _ := rfl
      exact h.call (by trivial) hrun
    have hτt : τ.TreeOrdered := by
      refine foldlM_invariant TreeOrdered ?_ hτ hdrop
      exact fun _ _ _ _ hinv hround => hinv.frame (.brokerHandleLocalSubscribe hround) (by decide) (by decide)
    have hrun : (Call.unlist subs).run cfg τ = some σ' := hs
    exact hτt.call (by trivial) hrun

theorem TreeOrdered.newAction {p : NodeId} {name : CString} {action : DataAction} {c : Option NodeId}
    (h : σ.TreeOrdered) (hs : σ.addAction p name action = some (σ', c)) : σ'.TreeOrdered := by
  simp only [addAction, Option.bind_eq_bind, Option.bind_eq_some_iff] at hs
  obtain ⟨⟨τ, child⟩, hτ, hs⟩ := hs
  have hτ := h.add hτ
  split at hs
  · cases hs
    exact hτ
  · cases hs
    exact hτ.action

theorem TreeOrdered.freeIfAny {c : Option NodeId} (h : σ.TreeOrdered) (hs : σ.freeIfAny c = some σ') :
    σ'.TreeOrdered := by
  unfold Broker.freeIfAny at hs
  split at hs
  · cases hs
    exact h
  · exact h.free hs

theorem TreeOrdered.actions {n : NodeId} {failed : Int} (h : σ.TreeOrdered)
    (hs : σ.brokerCreateDataActions n = some (σ', failed)) : σ'.TreeOrdered := by
  simp only [brokerCreateDataActions, Option.bind_eq_bind, Option.bind_eq_some_iff] at hs
  obtain ⟨⟨σ1, c1⟩, h1, ⟨σ2, c2⟩, h2, ⟨σ3, c3⟩, h3, hs⟩ := hs
  have h3 := ((h.newAction h1).newAction h2).newAction h3
  split at hs
  · cases hs
    exact h3
  · simp only [Option.bind_eq_some_iff] at hs
    obtain ⟨σ4, h4, σ5, h5, σ6, h6, hs⟩ := hs
    cases hs
    exact ((h3.freeIfAny h4).freeIfAny h5).freeIfAny h6

theorem TreeOrdered.dynamic {value now : J} {fuel : Nat} {n : NodeId} {path : CString} (h : σ.TreeOrdered)
    (hs : σ.brokerCreateDynamicDataNode cfg value now fuel n path = some σ') : σ'.TreeOrdered := by
  induction fuel generalizing σ n path with
  | zero => simp [brokerCreateDynamicDataNode] at hs
  | succ fuel ih =>
    simp only [brokerCreateDynamicDataNode] at hs
    generalize (if path.head? = some slash then path.tail else path) = rest at hs
    by_cases hrest : rest = []
    · rw [if_pos hrest] at hs
      exact h.updateValue hs
    · rw [if_neg hrest] at hs
      simp only [Option.bind_eq_bind, Option.bind_eq_some_iff] at hs
      obtain ⟨node, -, hs⟩ := hs
      split at hs
      · exact ih h hs
      · cases hs
      · simp only [Option.bind_eq_some_iff] at hs
        obtain ⟨⟨σ1, child⟩, h1, hs⟩ := hs
        split at hs
        · cases hs
          exact h.add h1
        · simp only [Option.bind_eq_some_iff] at hs
          obtain ⟨σ2, h2, ⟨σ3, failed⟩, h3, hs⟩ := hs
          exact ih (((h.add h1).handlePending h2).actions h3) hs

theorem TreeOrdered.forward {d : DownId} (h : σ.TreeOrdered) (hs : σ.forward d = some σ') : σ'.TreeOrdered := by
  simp only [Broker.forward, Option.bind_eq_bind, Option.bind_eq_some_iff] at hs
  obtain ⟨node, hd, hs⟩ := hs
  split at hs
  · cases hs
    exact h
  · rename_i node' hsend
    have hrun : (Call.sendOther d).run smallConfig σ = some σ' := by
      simp [Call.run, Broker.sendOther, hd, hsend, ← hs]
    exact h.call (by trivial) hrun

/-- A callback that builds local nodes or gives them values. -/
theorem TreeOrdered.work {e : Event J} (h : σ.TreeOrdered) (he : e.works) (hs : step cfg σ e = some σ') :
    σ'.TreeOrdered := by
  cases e with
  | nodeValue n value now => exact h.updateValue hs
  | invoke n name now =>
    simp only [step, invokeAction, Option.bind_eq_bind, Option.bind_eq_some_iff] at hs
    obtain ⟨node, -, action, -, hs⟩ := hs
    cases action with
    | addNode =>
      have hs : σ.onAddNodeInvoked cfg n name now = some σ' := hs
      unfold onAddNodeInvoked at hs
      split at hs
      · cases hs
        exact h
      · simp only [Option.bind_eq_bind, Option.bind_eq_some_iff] at hs
        obtain ⟨action, -, parent, -, ⟨σ1, child⟩, h1, hs⟩ := hs
        split at hs
        · cases hs
          exact h.add h1
        · simp only [Option.bind_eq_some_iff] at hs
          obtain ⟨⟨σ2, failed⟩, h2, hs⟩ := hs
          exact ((h.add h1).actions h2).handlePending hs
    | addValue =>
      have hs : σ.onAddValueInvoked cfg n name now = some σ' := hs
      unfold onAddValueInvoked at hs
      split at hs
      · cases hs
        exact h
      · simp only [Option.bind_eq_bind, Option.bind_eq_some_iff] at hs
        obtain ⟨action, -, parent, -, ⟨σ1, child⟩, h1, hs⟩ := hs
        split at hs
        · cases hs
          exact h.add h1
        · simp only [Option.bind_eq_some_iff] at hs
          obtain ⟨⟨σ2, failed⟩, h2, hs⟩ := hs
          have h2 := (h.add h1).actions h2
          split at hs
          · exact h2.free hs
          · exact h2.handlePending hs
    | deleteNode =>
      have hs : σ.onDeleteNodeInvoked n = some σ' := hs
      simp only [onDeleteNodeInvoked, Option.bind_eq_bind, Option.bind_eq_some_iff] at hs
      obtain ⟨action, -, parent, -, hs⟩ := hs
      exact h.free hs
    | publish => cases hs
  | publish path value now =>
    simp only [step, onPublishContinuousInvoked, Option.bind_eq_bind, Option.bind_eq_some_iff] at hs
    obtain ⟨node, -, hs⟩ := hs
    split at hs
    · exact h.updateValue hs
    · cases hs
      exact h
    · split at hs
      · exact h.dynamic hs
      · cases hs
        exact h
  | set path value now =>
    simp only [step, brokerMsgHandleSet, Option.bind_eq_bind, Option.bind_eq_some_iff] at hs
    obtain ⟨node, -, hs⟩ := hs
    split at hs
    · exact h.forward hs
    · split at hs
      · cases hs
        exact h
      · exact h.updateValue hs
    · split at hs
      · cases hs
        exact h
      · split at hs
        · exact h.dynamic hs
        · cases hs
          exact h
  | _ => exact he.elim

theorem TreeOrdered.step {e : Event J} (h : σ.TreeOrdered) (hs : Broker.step cfg σ e = some σ') : σ'.TreeOrdered := by
  cases e with
  | freeLocal n => exact h.free hs
  | nodeValue | invoke | publish | set => exact h.work (by trivial) hs
  | subscribe d sub now =>
    refine h.calls ?_ (step_calls hs)
    rintro c ⟨sid, -, hc | ⟨s, rfl⟩⟩
    · cases c <;> simp [Call.subscribes] at hc <;> trivial
    · trivial
  | unsubscribe d sid =>
    refine h.calls ?_ (step_calls hs)
    rintro c (rfl | ⟨s, rfl⟩) <;> trivial
  | initDownstream name =>
    refine h.calls ?_ (step_calls hs)
    rintro c ⟨parent, name, rfl⟩
    trivial
  | initUpstream name =>
    refine h.calls ?_ (step_calls hs)
    rintro c ⟨parent, name, rfl⟩
    trivial
  | connect d =>
    refine h.calls (fun c hc => ?_) (step_calls hs)
    cases c <;> simp [Event.calls, Call.connects] at hc <;> trivial
  | streamUpdate st row =>
    refine h.calls (fun c hc => ?_) (step_calls hs)
    cases c <;> simp [Event.calls, Call.updates] at hc <;> trivial
  | _ =>
    refine h.calls (fun c hc => ?_) (step_calls hs)
    obtain rfl := hc
    trivial

/-- Nothing frees the root. -/
def RootStays (cfg : Config) (σ : Broker J) (e : Event J) : Prop :=
  ∀ σ' ∈ step cfg σ e, (σ'.node.get σ'.root).isSome

instance (σ : Broker J) (e : Event J) : Decidable (RootStays cfg σ e) := by
  delta RootStays
  infer_instance

theorem brokerInit_ordered (h : brokerInit = some σ) : σ.TreeOrdered ∧ (σ.node.get σ.root).isSome := by
  refine ⟨?_, ?_⟩
  · simp only [brokerInit, Option.bind_eq_bind, Option.bind_eq_some_iff] at h
    obtain ⟨p1, h1, p2, h2, p3, h3, _, -, p4, h4, _, -, p5, h5, _, -, p6, h6, p7, h7, p8, h8, _, -, _, -, _, -, h⟩ := h
    have h1 : p1.1.TreeOrdered := by
      apply TreeOrdered.add _ h1
      exact .rootOnly rfl rfl
    have h3 := (h1.add h2).add h3
    have h6 := ((h3.newAction h4).newAction h5).newAction h6
    have h8 := (h6.add h7).add h8
    obtain rfl := Option.some.inj h
    exact ⟨h8.placed, h8.younger⟩
  · have hroot : (brokerInit (J := J)).map (fun σ => (σ.node.get σ.root).isSome) = some true := rfl
    rw [h] at hroot
    exact Option.some.inj hroot

/-- No entry dangles in any reachable state. -/
theorem reach_treeLive (h : Reach (step cfg) (RootStays cfg) (fun σ => brokerInit = some σ) σ) : σ.TreeLive := by
  have hinv : σ.TreeOrdered ∧ (σ.node.get σ.root).isSome := by
    refine Reach.invariant (fun σ => σ.TreeOrdered ∧ (σ.node.get σ.root).isSome) ?_ ?_ h
    · exact fun σ hσ => brokerInit_ordered hσ
    · exact fun σ e σ' hσ hok hs => ⟨hσ.1.step hs, hok σ' hs⟩
  obtain ⟨⟨hplaced, -⟩, hroot⟩ := hinv
  refine ⟨⟨hroot, fun p node k n hp hk => ?_⟩, fun p node k d hp hk => ?_⟩
  · obtain ⟨child, hchild, -⟩ := Option.map_eq_some_iff.mp (hplaced p node k _ id hp hk)
    exact Option.isSome_of_eq_some hchild
  · obtain ⟨child, hchild, -⟩ := Option.map_eq_some_iff.mp (hplaced p node k _ id hp hk)
    exact Option.isSome_of_eq_some hchild

end Broker

end DSLink
