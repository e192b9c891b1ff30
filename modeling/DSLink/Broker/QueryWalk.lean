import DSLink.Broker.Query

/-!
# `Broker.QueryWalk` — a query sees the same nodes whatever the order

A walk of `query_child_added_stream` attaches listeners to the nodes in `visits`, a function of the tree and the
pattern only. At the start the walk begins at `/data`, and for a node that is added later at that node, where it
ends at once. Either way a node is met once for each way down to it, and in a tree there is one.

## Contents
- `visits`, `walk_eq`: the walk as a list of what it attaches.
- `Tree`, `Under`, `Selected`: the data nodes as a tree, and the nodes a pattern selects in it.
- `visits_nodup`, `mem_visits`: the walk from `/data` meets what is selected, once.
- `Watched`, `query_sees_all`.
-/

namespace DSLink.Query

open State (attach queryChildAddedStream)

/-! ## What a walk attaches -/

/-- The listeners that the walk below `n` adds, in its order. -/
def visits (σ : State) (pattern : CString) : Nat → NodeId → List (NodeId × Callback)
  | 0, _ => []
  | fuel + 1, n =>
    match σ.node.get n with
    | none => []
    | some node =>
      if matchQuery node.path pattern = .notMatch then []
      else
        (n, .childAdded) :: (node.children.values.flatMap (visits σ pattern fuel) ++
          if matchQuery node.path pattern = .fullMatch then [(n, .valueUpdate)] else [])

/-- Add the listeners of a list of visits. -/
def attachAll (st : StreamId) (l : List (NodeId × Callback)) (σ : State) : Option State :=
  l.foldlM (fun σ v => σ.attach st v.1 v.2) σ

/-- What a walk reads of a node. -/
def Node.shape (node : Node) : CString × CString × Option NodeId × AssocMap CString NodeId :=
  (node.path, node.name, node.parent, node.children)

/-- The same tree. -/
def SameShape (σ τ : State) : Prop := ∀ n, (τ.node.get n).map Node.shape = (σ.node.get n).map Node.shape

theorem SameShape.refl (σ : State) : SameShape σ σ := fun _ => rfl

theorem SameShape.trans {σ τ υ : State} (h1 : SameShape σ τ) (h2 : SameShape τ υ) : SameShape σ υ :=
  fun n => (h2 n).trans (h1 n)

theorem SameShape.symm {σ τ : State} (h : SameShape σ τ) : SameShape τ σ := fun n => (h n).symm

theorem SameShape.get {σ τ : State} (h : SameShape σ τ) {n : NodeId} {node : Node} (hn : σ.node.get n = some node) :
    ∃ node', τ.node.get n = some node' ∧ node'.shape = node.shape := by
  have h1 := h n
  rw [hn] at h1
  exact Option.map_eq_some_iff.mp h1

/-- The same queries are open, with the same patterns. -/
def SamePatterns (σ τ : State) : Prop :=
  ∀ st, (τ.stream.get st).map QueryStream.pattern = (σ.stream.get st).map QueryStream.pattern

theorem SamePatterns.trans {σ τ υ : State} (h1 : SamePatterns σ τ) (h2 : SamePatterns τ υ) : SamePatterns σ υ :=
  fun st => (h2 st).trans (h1 st)

theorem SamePatterns.get {σ τ : State} (h : SamePatterns σ τ) {st : StreamId} {stream : QueryStream}
    (hst : τ.stream.get st = some stream) :
    ∃ stream0, σ.stream.get st = some stream0 ∧ stream0.pattern = stream.pattern := by
  have h1 := h st
  rw [hst] at h1
  exact Option.map_eq_some_iff.mp h1.symm

theorem shape_setDispatcher (node : Node) (cb : Callback) (l : List ListenerId) :
    (node.setDispatcher cb l).shape = node.shape := by
  cases cb <;> rfl

theorem pattern_remember (stream : QueryStream) (cb : Callback) (path : CString) (l : ListenerId) :
    (stream.remember cb path l).pattern = stream.pattern := by
  cases cb <;> rfl

/-- Attaching changes no tree and no pattern. -/
theorem attach_shape {σ σ' : State} {st : StreamId} {n : NodeId} {cb : Callback} (h : σ.attach st n cb = some σ') :
    SameShape σ σ' ∧ SamePatterns σ σ' := by
  simp only [attach, Option.bind_eq_bind, Option.bind_eq_some_iff, Option.some.injEq] at h
  obtain ⟨node, hn, stream, hst, rfl⟩ := h
  constructor
  · intro m
    show ((σ.node.modify n _).get m).map Node.shape = _
    rw [Heap.get_modify]
    split
    · rename_i hm
      rw [hm, Option.map_map]
      exact Option.map_congr (fun x _ => shape_setDispatcher x cb _)
    · rfl
  · intro st'
    show ((σ.stream.modify st _).get st').map QueryStream.pattern = _
    rw [Heap.get_modify]
    split
    · rename_i hm
      rw [hm, Option.map_map]
      exact Option.map_congr (fun x _ => pattern_remember x cb _ _)
    · rfl

theorem attachAll_shape {st : StreamId} {l : List (NodeId × Callback)} {σ σ' : State}
    (h : attachAll st l σ = some σ') :
    SameShape σ σ' ∧ SamePatterns σ σ' := by
  apply foldlM_invariant (fun τ => SameShape σ τ ∧ SamePatterns σ τ) ?_ h
  · exact ⟨.refl σ, fun _ => rfl⟩
  · rintro τ v - υ ⟨h1, h2⟩ h3
    obtain ⟨h4, h5⟩ := attach_shape h3
    exact ⟨h1.trans h4, h2.trans h5⟩

/-- The visits depend on the tree only. -/
theorem visits_congr {σ τ : State} (h : SameShape σ τ) (pattern : CString) (fuel : Nat) :
    visits τ pattern fuel = visits σ pattern fuel := by
  induction fuel with
  | zero => rfl
  | succ fuel ih =>
    funext n
    unfold visits
    have hn := h n
    cases hσ : σ.node.get n with
    | none =>
      rw [hσ, Option.map_none, Option.map_eq_none_iff] at hn
      rw [hn]
    | some node =>
      obtain ⟨node', hτ, hs⟩ := h.get hσ
      simp only [Node.shape, Prod.mk.injEq] at hs
      rw [hτ]
      dsimp only
      rw [hs.1, hs.2.2.2, ih]

theorem attachAll_append (st : StreamId) (l l' : List (NodeId × Callback)) (σ : State) :
    attachAll st (l ++ l') σ = (attachAll st l σ).bind (attachAll st l') := by
  unfold attachAll
  rw [List.foldlM_append]
  rfl

/-- A walk attaches what it visits. -/
theorem walk_eq {st : StreamId} {pattern : CString} (fuel : Nat) {σ σ' : State} {n : NodeId}
    (hp : (σ.stream.get st).map QueryStream.pattern = some pattern)
    (h : queryChildAddedStream st fuel σ n = some σ') : attachAll st (visits σ pattern fuel n) σ = some σ' := by
  induction fuel generalizing σ σ' n with
  | zero => cases h
  | succ fuel ih =>
    simp only [queryChildAddedStream, Option.bind_eq_bind, Option.bind_eq_some_iff] at h
    obtain ⟨stream, hst, node, hn, h⟩ := h
    rw [hst, Option.map_some, Option.some.injEq] at hp
    subst hp
    unfold visits
    rw [hn]
    dsimp only
    split at h
    · rename_i hm
      rw [if_pos hm]
      exact h
    · rename_i hm
      rw [if_neg hm]
      simp only [Option.bind_eq_some_iff] at h
      obtain ⟨τ, hτ, υ, hυ, h⟩ := h
      obtain ⟨hs, hpat⟩ := attach_shape hτ
      -- the walks below the children, one after the other
      have hfold : ∀ (cs : List NodeId) (τ : State), SameShape σ τ →
          (τ.stream.get st).map QueryStream.pattern = some stream.pattern →
          cs.foldlM (queryChildAddedStream st fuel) τ = some υ →
          attachAll st (cs.flatMap (visits σ stream.pattern fuel)) τ = some υ := by
        intro cs
        induction cs with
        | nil => exact fun _ _ _ h => h
        | cons c cs ihc =>
          intro τ hs hp h
          simp only [List.foldlM_cons, Option.bind_eq_bind, Option.bind_eq_some_iff] at h
          obtain ⟨φ, hφ, h⟩ := h
          have h1 := ih hp hφ
          rw [visits_congr hs] at h1
          obtain ⟨h2, h3⟩ := attachAll_shape h1
          rw [List.flatMap_cons, attachAll_append, h1, Option.bind_some]
          exact ihc φ (hs.trans h2) ((h3 st).trans hp) h
      have hpτ : (τ.stream.get st).map QueryStream.pattern = some stream.pattern := by
        rw [hpat, hst]
        rfl
      have h1 := hfold node.children.values τ hs hpτ hυ
      show ((σ.attach st n .childAdded).bind (attachAll st _)) = some σ'
      rw [hτ, Option.bind_some, attachAll_append, h1, Option.bind_some]
      split at h
      · rename_i hf
        rw [if_pos hf]
        show ((υ.attach st n .valueUpdate).bind some) = some σ'
        rw [h]
        rfl
      · rename_i hf
        rw [if_neg hf]
        exact h

/-! ## The tree -/

/-- The data nodes are a tree: children and parents agree, and a child is younger than its parent. -/
structure Tree (σ : State) : Prop where
  root : ∃ node, σ.node.get dataNode = some node ∧ node.parent = none
  child : ∀ p node k c, σ.node.get p = some node → node.children.get k = some c →
    p < c ∧ ∃ child, σ.node.get c = some child ∧ child.parent = some p ∧ child.name = k
  parent : ∀ c child p, σ.node.get c = some child → child.parent = some p →
    ∃ node, σ.node.get p = some node ∧ node.children.get child.name = some c

/-- `m` is `a` or below it. -/
inductive Under (σ : State) (a : NodeId) : NodeId → Prop
  | refl : Under σ a a
  | step {p c : NodeId} {child : Node} (h : Under σ a p) (hc : σ.node.get c = some child)
      (hp : child.parent = some p) : Under σ a c

/-- `n` is at or below `/data`, and neither it nor a node above it fails the pattern. -/
inductive Selected (σ : State) (pattern : CString) : NodeId → Prop
  | data {node : Node} (hn : σ.node.get dataNode = some node) (hm : matchQuery node.path pattern ≠ .notMatch) :
      Selected σ pattern dataNode
  | child {p c : NodeId} {node : Node} (h : Selected σ pattern p) (hn : σ.node.get c = some node)
      (hp : node.parent = some p) (hm : matchQuery node.path pattern ≠ .notMatch) : Selected σ pattern c

section

variable {σ τ : State} {pattern : CString} {a b c m n p : Nat} {node child : Node}

theorem Tree.congr (hσ : Tree σ) (h : SameShape σ τ) : Tree τ where
  root := by
    obtain ⟨node, hn, hp⟩ := hσ.root
    obtain ⟨node', hn', hs⟩ := h.get hn
    simp only [Node.shape, Prod.mk.injEq] at hs
    exact ⟨node', hn', hs.2.2.1.trans hp⟩
  child := by
    intro p node k c hp hc
    obtain ⟨node0, hp0, hs⟩ := h.symm.get hp
    simp only [Node.shape, Prod.mk.injEq] at hs
    obtain ⟨hlt, child, hch, hpar, hname⟩ := hσ.child p node0 k c hp0 (hs.2.2.2 ▸ hc)
    obtain ⟨child', hch', hs'⟩ := h.get hch
    simp only [Node.shape, Prod.mk.injEq] at hs'
    exact ⟨hlt, child', hch', hs'.2.2.1.trans hpar, hs'.2.1.trans hname⟩
  parent := by
    intro c child p hc hp
    obtain ⟨child0, hc0, hs⟩ := h.symm.get hc
    simp only [Node.shape, Prod.mk.injEq] at hs
    obtain ⟨node, hn, hch⟩ := hσ.parent c child0 p hc0 (hs.2.2.1.trans hp)
    obtain ⟨node', hn', hs'⟩ := h.get hn
    simp only [Node.shape, Prod.mk.injEq] at hs'
    refine ⟨node', hn', ?_⟩
    rw [hs'.2.2.2, ← hs.2.1]
    exact hch

theorem Selected.congr (h : SameShape σ τ) (hm : Selected σ pattern m) : Selected τ pattern m := by
  induction hm with
  | data hn hm =>
    obtain ⟨node', hn', hs⟩ := h.get hn
    simp only [Node.shape, Prod.mk.injEq] at hs
    exact .data hn' (hs.1 ▸ hm)
  | child _ hn hp hm ih =>
    obtain ⟨node', hn', hs⟩ := h.get hn
    simp only [Node.shape, Prod.mk.injEq] at hs
    exact .child ih hn' (hs.2.2.1.trans hp) (hs.1 ▸ hm)

theorem Tree.lt_of_parent (hσ : Tree σ) (hc : σ.node.get c = some child) (hp : child.parent = some p) : p < c := by
  obtain ⟨node, hn, hch⟩ := hσ.parent c child p hc hp
  exact (hσ.child p node _ c hn hch).1

theorem Under.le (hσ : Tree σ) (h : Under σ a m) : a ≤ m := by
  induction h with
  | refl => exact Nat.le_refl _
  | step _ hc hp ih => exact Nat.le_trans ih (Nat.le_of_lt (hσ.lt_of_parent hc hp))

/-- The nodes above one node are in a line. -/
theorem Under.linear (ha : Under σ a m) (hb : Under σ b m) : Under σ a b ∨ Under σ b a := by
  induction ha generalizing b with
  | refl => exact .inr hb
  | @step p c child h hc hp ih =>
    cases hb with
    | refl => exact .inl (.step h hc hp)
    | @step q _ child' h' hc' hp' =>
      obtain rfl : child = child' := Option.some.inj (hc.symm.trans hc')
      obtain rfl : p = q := Option.some.inj (hp.symm.trans hp')
      exact ih h'

/-- What is below one child is below no other. -/
theorem Tree.disjoint (hσ : Tree σ) {k k' : CString} {c' : Nat} (hn : σ.node.get n = some node)
    (hc : node.children.get k = some c) (hc' : node.children.get k' = some c') (hne : c ≠ c')
    (h : Under σ c m) (h' : Under σ c' m) : False := by
  -- one of the two would be above the other, hence at or above their parent
  have hup : ∀ {x y : Nat} {kx ky : CString}, node.children.get kx = some x → node.children.get ky = some y →
      x ≠ y → Under σ x y → False := by
    intro x y kx ky hx hy hxy hu
    obtain ⟨_, child, hchild, hpar, -⟩ := hσ.child n node ky y hn hy
    cases hu with
    | refl => exact hxy rfl
    | step hu hch hp =>
      obtain rfl := Option.some.inj (hchild.symm.trans hch)
      obtain rfl := Option.some.inj (hpar.symm.trans hp)
      have hle := hu.le hσ
      have hlt := (hσ.child n node kx x hn hx).1
      omega
  rcases h.linear h' with hu | hu
  · exact hup hc hc' hne hu
  · exact hup hc' hc (Ne.symm hne) hu

/-! ## What is visited -/

theorem mem_visits_succ {fuel : Nat} {v : NodeId × Callback} (hn : σ.node.get n = some node) :
    v ∈ visits σ pattern (fuel + 1) n ↔ matchQuery node.path pattern ≠ .notMatch ∧
      (v = (n, .childAdded) ∨ (∃ c ∈ node.children.values, v ∈ visits σ pattern fuel c) ∨
        (matchQuery node.path pattern = .fullMatch ∧ v = (n, .valueUpdate))) := by
  rw [visits, hn]
  dsimp only
  by_cases hm : matchQuery node.path pattern = .notMatch
  · rw [if_pos hm]
    exact ⟨fun h => absurd h List.not_mem_nil, fun h => absurd hm h.1⟩
  · rw [if_neg hm, List.mem_cons, List.mem_append, List.mem_flatMap]
    by_cases hf : matchQuery node.path pattern = .fullMatch
    · rw [if_pos hf, List.mem_singleton]
      exact ⟨fun h => ⟨hm, h.imp id (fun h => h.imp id (fun h => ⟨hf, h⟩))⟩,
        fun h => h.2.imp id (fun h => h.imp id (fun h => h.2))⟩
    · rw [if_neg hf]
      refine ⟨fun h => ⟨hm, h.imp id (fun h => .inl (h.resolve_right List.not_mem_nil))⟩, fun h => h.2.imp id ?_⟩
      exact fun h => .inl (h.resolve_right (fun h => hf h.1))

theorem visits_dead {fuel : Nat} (hn : σ.node.get n = none) : visits σ pattern fuel n = [] := by
  cases fuel with
  | zero => rfl
  | succ fuel => rw [visits, hn]

/-- A way down may start with a step. -/
theorem Under.head (hc : σ.node.get c = some child) (hp : child.parent = some a) (h : Under σ c m) :
    Under σ a m := by
  induction h with
  | refl => exact .step .refl hc hp
  | step _ hc' hp' ih => exact .step ih hc' hp'

theorem mem_visits_under (hσ : Tree σ) {fuel : Nat} {v : NodeId × Callback} (h : v ∈ visits σ pattern fuel a) :
    Under σ a v.1 := by
  induction fuel generalizing a with
  | zero => exact absurd h List.not_mem_nil
  | succ fuel ih =>
    cases hn : σ.node.get a with
    | none =>
      rw [visits_dead hn] at h
      exact absurd h List.not_mem_nil
    | some node =>
      obtain ⟨-, rfl | ⟨c, hc, h⟩ | ⟨-, rfl⟩⟩ := (mem_visits_succ hn).mp h
      · exact .refl
      · obtain ⟨k, hk⟩ := AssocMap.mem_values.mp hc
        obtain ⟨_, child, hch, hp, -⟩ := hσ.child a node k c hn hk
        exact .head hch hp (ih h)
      · exact .refl

/-- Different names have different children. -/
theorem Tree.nodup_children (hσ : Tree σ) (hn : σ.node.get n = some node) : node.children.values.Nodup := by
  unfold AssocMap.values
  apply List.Nodup.map_on ?_ (List.Nodup.of_map _ node.children.nodup)
  rintro ⟨k, c⟩ hk ⟨k', c'⟩ hk' (rfl : c = c')
  obtain ⟨_, child, hch, -, rfl⟩ := hσ.child n node k c hn (AssocMap.mem_entries.mp hk)
  obtain ⟨_, child', hch', -, rfl⟩ := hσ.child n node k' c hn (AssocMap.mem_entries.mp hk')
  cases hch.symm.trans hch'
  rfl

/-- A walk attaches no listener twice. -/
theorem visits_nodup (hσ : Tree σ) (pattern : CString) (fuel : Nat) (a : NodeId) :
    (visits σ pattern fuel a).Nodup := by
  induction fuel generalizing a with
  | zero => exact List.nodup_nil
  | succ fuel ih =>
    cases hn : σ.node.get a with
    | none =>
      rw [visits_dead hn]
      exact List.nodup_nil
    | some node =>
      -- below a child the node itself is not met again
      have hbelow : ∀ cb, (a, cb) ∉ node.children.values.flatMap (visits σ pattern fuel) := by
        intro cb h
        obtain ⟨c, hc, h⟩ := List.mem_flatMap.mp h
        obtain ⟨k, hk⟩ := AssocMap.mem_values.mp hc
        have hlt := (hσ.child a node k c hn hk).1
        exact Nat.not_le_of_lt hlt ((mem_visits_under hσ h).le hσ)
      have hflat : (node.children.values.flatMap (visits σ pattern fuel)).Nodup := by
        rw [List.nodup_flatMap]
        refine ⟨fun c _ => ih c, (hσ.nodup_children hn).imp_of_mem ?_⟩
        intro c c' hc hc' hne v hv hv'
        obtain ⟨k, hk⟩ := AssocMap.mem_values.mp hc
        obtain ⟨k', hk'⟩ := AssocMap.mem_values.mp hc'
        exact hσ.disjoint hn hk hk' hne (mem_visits_under hσ hv) (mem_visits_under hσ hv')
      rw [visits, hn]
      dsimp only
      split
      · exact List.nodup_nil
      · refine List.nodup_cons.mpr ⟨fun h => ?_, hflat.append ?_ ?_⟩
        · rcases List.mem_append.mp h with h | h
          · exact hbelow _ h
          · split at h
            · exact absurd (List.mem_singleton.mp h) (by simp)
            · exact absurd h List.not_mem_nil
        · split
          · exact List.nodup_singleton _
          · exact List.nodup_nil
        · intro v hv hv'
          split at hv'
          · rw [List.mem_singleton.mp hv'] at hv
            exact hbelow _ hv
          · exact absurd hv' List.not_mem_nil

theorem selected_of_mem_visits (hσ : Tree σ) {fuel : Nat} {v : NodeId × Callback}
    (ha : a = dataNode ∨ ∃ p x, σ.node.get a = some x ∧ x.parent = some p ∧ Selected σ pattern p)
    (h : v ∈ visits σ pattern fuel a) : Selected σ pattern v.1 ∧
      (v.2 = .valueUpdate → ∃ x, σ.node.get v.1 = some x ∧ matchQuery x.path pattern = .fullMatch) := by
  induction fuel generalizing a with
  | zero => exact absurd h List.not_mem_nil
  | succ fuel ih =>
    cases hn : σ.node.get a with
    | none =>
      rw [visits_dead hn] at h
      exact absurd h List.not_mem_nil
    | some node =>
      obtain ⟨hm, h⟩ := (mem_visits_succ hn).mp h
      have hself : Selected σ pattern a := by
        rcases ha with rfl | ⟨p, x, hx, hp, hsel⟩
        · exact .data hn hm
        · cases hn.symm.trans hx
          exact .child hsel hn hp hm
      rcases h with rfl | ⟨c, hc, h⟩ | ⟨hf, rfl⟩
      · exact ⟨hself, fun h => (by cases h)⟩
      · obtain ⟨k, hk⟩ := AssocMap.mem_values.mp hc
        obtain ⟨_, child, hch, hp, -⟩ := hσ.child a node k c hn hk
        exact ih (.inr ⟨a, child, hch, hp, hself⟩) h
      · exact ⟨hself, fun _ => ⟨node, hn, hf⟩⟩

/-- The visits go on below a node they meet. -/
theorem visits_child (hσ : Tree σ) {fuel : Nat} (hf : σ.node.next < a + fuel)
    (h : (p, .childAdded) ∈ visits σ pattern fuel a) (hc : σ.node.get c = some child) (hp : child.parent = some p)
    (hm : matchQuery child.path pattern ≠ .notMatch) : (c, .childAdded) ∈ visits σ pattern fuel a := by
  induction fuel generalizing a with
  | zero => exact absurd h List.not_mem_nil
  | succ fuel ih =>
    cases hn : σ.node.get a with
    | none =>
      rw [visits_dead hn] at h
      exact absurd h List.not_mem_nil
    | some node =>
      obtain ⟨hma, h⟩ := (mem_visits_succ hn).mp h
      refine (mem_visits_succ hn).mpr ⟨hma, .inr (.inl ?_)⟩
      rcases h with h | ⟨d, hd, h⟩ | ⟨-, h⟩
      · cases h
        obtain ⟨node', hn', hch⟩ := hσ.parent c child p hc hp
        cases hn.symm.trans hn'
        refine ⟨c, AssocMap.mem_values.mpr ⟨_, hch⟩, ?_⟩
        obtain ⟨fuel, rfl⟩ : ∃ f, fuel = f + 1 := by
          have hlt := hσ.lt_of_parent hc hp
          have hnext := Heap.lt_next_of_get hc
          exact ⟨fuel - 1, by omega⟩
        exact (mem_visits_succ hc).mpr ⟨hm, .inl rfl⟩
      · obtain ⟨k, hk⟩ := AssocMap.mem_values.mp hd
        have hlt := (hσ.child a node k d hn hk).1
        exact ⟨d, hd, ih (by omega) h⟩
      · cases h

theorem visits_value {fuel : Nat} (h : (m, .childAdded) ∈ visits σ pattern fuel a) (hm : σ.node.get m = some node)
    (hfull : matchQuery node.path pattern = .fullMatch) : (m, .valueUpdate) ∈ visits σ pattern fuel a := by
  induction fuel generalizing a with
  | zero => exact absurd h List.not_mem_nil
  | succ fuel ih =>
    cases hn : σ.node.get a with
    | none =>
      rw [visits_dead hn] at h
      exact absurd h List.not_mem_nil
    | some x =>
      obtain ⟨hma, h⟩ := (mem_visits_succ hn).mp h
      refine (mem_visits_succ hn).mpr ⟨hma, ?_⟩
      rcases h with h | ⟨d, hd, h⟩ | ⟨-, h⟩
      · cases h
        cases hn.symm.trans hm
        exact .inr (.inr ⟨hfull, rfl⟩)
      · exact .inr (.inl ⟨d, hd, ih h⟩)
      · cases h

/-- The walk from `/data` meets what is selected. -/
theorem mem_visits (hσ : Tree σ) :
    (m, .childAdded) ∈ visits σ pattern (σ.node.next + 1) dataNode ↔ Selected σ pattern m := by
  refine ⟨fun h => (selected_of_mem_visits hσ (.inl rfl) h).1, fun h => ?_⟩
  induction h with
  | data hn hm => exact (mem_visits_succ hn).mpr ⟨hm, .inl rfl⟩
  | child _ hn hp hm ih => exact visits_child hσ (by unfold dataNode; omega) ih hn hp hm

theorem mem_visits_value (hσ : Tree σ) (hm : σ.node.get m = some node) :
    (m, .valueUpdate) ∈ visits σ pattern (σ.node.next + 1) dataNode ↔
      Selected σ pattern m ∧ matchQuery node.path pattern = .fullMatch := by
  constructor
  · intro h
    obtain ⟨hsel, hv⟩ := selected_of_mem_visits hσ (.inl rfl) h
    obtain ⟨x, hx, hf⟩ := hv rfl
    cases hm.symm.trans hx
    exact ⟨hsel, hf⟩
  · rintro ⟨hsel, hf⟩
    exact visits_value ((mem_visits hσ).mpr hsel) hm hf

end

/-! ## How often a node is listened to -/

/-- The number of listeners of the query `st` in a dispatcher. -/
def countIn (σ : State) (st : StreamId) (l : List ListenerId) : Nat :=
  l.countP (fun l => (σ.listener.get l).map Listener.data = some st)

/-- The number of listeners of the query `st` at the node `n`. -/
def count (σ : State) (cb : Callback) (st : StreamId) (n : NodeId) : Nat :=
  countIn σ st (((σ.node.get n).map (fun node => node.dispatcher cb)).getD [])

/-- Only listeners that were allocated are in a dispatcher. -/
def Bounded (σ : State) : Prop :=
  ∀ n node cb l, σ.node.get n = some node → l ∈ node.dispatcher cb → l < σ.listener.next

section

variable {σ σ' τ : State} {pattern : CString} {st st' : StreamId} {cb cb' : Callback} {c m n p : Nat}
  {node child : Node} {stream : QueryStream}

theorem dispatcher_setDispatcher (node : Node) (cb cb' : Callback) (l : List ListenerId) :
    (node.setDispatcher cb l).dispatcher cb' = if cb' = cb then l else node.dispatcher cb' := by
  cases cb <;> cases cb' <;> rfl

theorem Bounded.mem_lt (hσ : Bounded σ) {l : ListenerId}
    (h : l ∈ ((σ.node.get n).map (fun node => node.dispatcher cb)).getD []) : l < σ.listener.next := by
  cases hn : σ.node.get n with
  | none =>
    rw [hn] at h
    exact absurd h List.not_mem_nil
  | some node =>
    rw [hn] at h
    exact hσ n node cb l hn h

/-- A count depends on the listeners in the list only. -/
theorem countIn_congr {l : List ListenerId} (h : ∀ x ∈ l, τ.listener.get x = σ.listener.get x) :
    countIn τ st l = countIn σ st l := by
  apply List.countP_congr
  intro x hx
  rw [h x hx]

/-- What attaching does to the dispatchers and the listeners. -/
theorem attach_spec (h : σ.attach st n cb = some σ') :
    (∀ m cb', ((σ'.node.get m).map (fun node => node.dispatcher cb')).getD [] =
      ((σ.node.get m).map (fun node => node.dispatcher cb')).getD [] ++
        if m = n ∧ cb' = cb then [σ.listener.next] else []) ∧
      σ'.listener = σ.listener.alloc ⟨cb, st, some n⟩ ∧ σ'.stream.next = σ.stream.next ∧
      σ'.node.next = σ.node.next := by
  simp only [attach, Option.bind_eq_bind, Option.bind_eq_some_iff, Option.some.injEq] at h
  obtain ⟨node, hn, stream, hst, rfl⟩ := h
  refine ⟨fun m cb' => ?_, rfl, rfl, rfl⟩
  show (((σ.node.modify n _).get m).map _).getD [] = _
  rw [Heap.get_modify]
  by_cases hm : m = n
  · subst hm
    rw [if_pos rfl, hn]
    simp only [Option.map_some, Option.getD_some, dispatcher_setDispatcher, true_and]
    by_cases hcb : cb' = cb
    · rw [if_pos hcb, if_pos hcb, hcb]
    · rw [if_neg hcb, if_neg hcb, List.append_nil]
  · rw [if_neg hm, if_neg (fun h => hm h.1), List.append_nil]

theorem attach_bounded (hσ : Bounded σ) (h : σ.attach st n cb = some σ') : Bounded σ' := by
  obtain ⟨hd, hl, -, -⟩ := attach_spec h
  intro m node cb' l hm hmem
  have h1 := hd m cb'
  rw [hm, Option.map_some, Option.getD_some] at h1
  rw [h1] at hmem
  rw [hl]
  show l < σ.listener.next + 1
  rcases List.mem_append.mp hmem with hmem | hmem
  · exact Nat.lt_succ_of_lt (hσ.mem_lt hmem)
  · split at hmem
    · exact Nat.lt_succ_of_le (Nat.le_of_eq (List.mem_singleton.mp hmem))
    · exact absurd hmem List.not_mem_nil

/-- One more listener of one kind of one query at one node. -/
theorem attach_count (hσ : Bounded σ) (h : σ.attach st n cb = some σ') :
    count σ' cb' st' m = count σ cb' st' m + if st' = st then [(n, cb)].count (m, cb') else 0 := by
  obtain ⟨hd, hl, -, -⟩ := attach_spec h
  have hold : ∀ l, l < σ.listener.next → σ'.listener.get l = σ.listener.get l := by
    intro l hlt
    rw [hl, Heap.get_alloc, if_neg (Nat.ne_of_lt hlt)]
  unfold count
  rw [hd m cb', countIn, List.countP_append]
  congr 1
  · exact countIn_congr (fun l hmem => hold l (hσ.mem_lt hmem))
  · by_cases hm : m = n ∧ cb' = cb
    · rw [if_pos hm, hm.1, hm.2, List.countP_singleton, hl, Heap.get_alloc_next, List.count_singleton_self]
      by_cases hst : st' = st
      · simp [hst]
      · simp [hst, Ne.symm hst]
    · have h0 : [(n, cb)].count (m, cb') = 0 := by
        rw [List.count_eq_zero, List.mem_singleton]
        rintro h
        cases h
        exact hm ⟨rfl, rfl⟩
      rw [if_neg hm, List.countP_nil, h0, ite_self]

theorem attachAll_count {l : List (NodeId × Callback)} (hσ : Bounded σ) (h : attachAll st l σ = some σ') :
    Bounded σ' ∧ ∀ cb' st' m, count σ' cb' st' m = count σ cb' st' m + if st' = st then l.count (m, cb') else 0 := by
  induction l generalizing σ with
  | nil =>
    cases h
    refine ⟨hσ, fun cb' st' m => ?_⟩
    rw [List.count_nil, ite_self, Nat.add_zero]
  | cons v l ih =>
    simp only [attachAll, List.foldlM_cons, Option.bind_eq_bind, Option.bind_eq_some_iff] at h
    obtain ⟨τ, hτ, h⟩ := h
    obtain ⟨h1, h2⟩ := ih (attach_bounded hσ hτ) h
    refine ⟨h1, fun cb' st' m => ?_⟩
    rw [h2, attach_count hσ hτ]
    by_cases hst : st' = st
    · rw [if_pos hst, if_pos hst, if_pos hst, Nat.add_assoc, ← List.count_append]
      rfl
    · rw [if_neg hst, if_neg hst, if_neg hst, Nat.add_zero]

/-- Once if `p`, and otherwise not at all. -/
def Once (p : Prop) (k : Nat) : Prop := (p → k = 1) ∧ (¬p → k = 0)

theorem Once.congr {p q : Prop} {k : Nat} (hpq : p ↔ q) (h : Once p k) : Once q k :=
  ⟨fun hq => h.1 (hpq.mpr hq), fun hq => h.2 (fun hp => hq (hpq.mp hp))⟩

theorem once_count {l : List (NodeId × Callback)} (hl : l.Nodup) (v : NodeId × Callback) :
    Once (v ∈ l) (l.count v) :=
  ⟨fun h => List.count_eq_one_of_mem hl h, fun h => List.count_eq_zero_of_not_mem h⟩

theorem once_mul {p q : Prop} {j k : Nat} (hp : Once p j) (hq : p → Once q k) : Once (p ∧ q) (j * k) := by
  constructor
  · rintro ⟨h1, h2⟩
    rw [hp.1 h1, (hq h1).1 h2]
  · intro h
    by_cases h1 : p
    · rw [(hq h1).2 (fun h2 => h ⟨h1, h2⟩), Nat.mul_zero]
    · rw [hp.2 h1, Nat.zero_mul]

/-- Every query listens at the nodes it selects, once for children and, at a match, once for values. -/
structure Watched (σ : State) : Prop where
  tree : Tree σ
  bounded : Bounded σ
  fresh : ∀ cb st n, σ.stream.next ≤ st → count σ cb st n = 0
  childAdded : ∀ st stream n node, σ.stream.get st = some stream → σ.node.get n = some node →
    Once (Selected σ stream.pattern n) (count σ .childAdded st n)
  valueUpdate : ∀ st stream n node, σ.stream.get st = some stream → σ.node.get n = some node →
    Once (Selected σ stream.pattern n ∧ matchQuery node.path stream.pattern = .fullMatch) (count σ .valueUpdate st n)

/-! ## The start of a query -/

/-- A walk in terms of its visits. -/
theorem walk_count {fuel : Nat} (hσ : Bounded σ) (hst : σ.stream.get st = some stream)
    (h : queryChildAddedStream st fuel σ n = some σ') :
    Bounded σ' ∧ SameShape σ σ' ∧ SamePatterns σ σ' ∧
      ∀ cb' st' m, count σ' cb' st' m = count σ cb' st' m +
        if st' = st then (visits σ stream.pattern fuel n).count (m, cb') else 0 := by
  have h1 : attachAll st (visits σ stream.pattern fuel n) σ = some σ' := by
    apply walk_eq fuel _ h
    rw [hst]
    rfl
  obtain ⟨h2, h3⟩ := attachAll_shape h1
  obtain ⟨h4, h5⟩ := attachAll_count hσ h1
  exact ⟨h4, h2, h3, h5⟩

/-- Attaching allocates no stream. -/
theorem attachAll_next {l : List (NodeId × Callback)} (h : attachAll st l σ = some σ') :
    σ'.stream.next = σ.stream.next ∧ σ'.node.next = σ.node.next ∧ σ.listener.next ≤ σ'.listener.next ∧
      ∀ x, x < σ.listener.next → σ'.listener.get x = σ.listener.get x := by
  apply foldlM_invariant (fun τ => τ.stream.next = σ.stream.next ∧ τ.node.next = σ.node.next ∧
    σ.listener.next ≤ τ.listener.next ∧ ∀ x, x < σ.listener.next → τ.listener.get x = σ.listener.get x) ?_ h
  · exact ⟨rfl, rfl, Nat.le_refl _, fun _ _ => rfl⟩
  · rintro τ v - υ ⟨h1, h2, h3, h4⟩ hs
    obtain ⟨-, hl, hst, hn⟩ := attach_spec hs
    refine ⟨hst.trans h1, hn.trans h2, ?_, fun x hx => ?_⟩
    · rw [hl]
      exact Nat.le_succ_of_le h3
    · rw [hl, Heap.get_alloc, if_neg (Nat.ne_of_lt (Nat.lt_of_lt_of_le hx h3))]
      exact h4 x hx

theorem selected_congr (h : SameShape σ τ) : Selected τ pattern m ↔ Selected σ pattern m :=
  ⟨.congr h.symm, .congr h⟩

/-- A query that starts finds what is there. -/
theorem watched_queryInvoke {requester rid : Nat} (hσ : Watched σ)
    (h : σ.queryInvoke requester rid pattern = some σ') : Watched σ' := by
  unfold State.queryInvoke at h
  generalize hτ : σ.openStream requester rid pattern = τ at h
  have hshape : SameShape σ τ := hτ ▸ .refl σ
  have hcount : ∀ cb st n, count τ cb st n = count σ cb st n := by
    subst hτ
    exact fun _ _ _ => rfl
  have hnew : τ.stream.get σ.stream.next = some ⟨pattern, requester, rid, .empty, .empty⟩ := by
    subst hτ
    exact Heap.get_alloc_next _ _
  have hnode : τ.node = σ.node := by
    subst hτ
    rfl
  have hbound : Bounded τ := by
    subst hτ
    exact hσ.bounded
  have hT : Tree τ := hσ.tree.congr hshape
  have hwalk := h
  obtain ⟨h1, h2, h3, h4⟩ := walk_count hbound hnew h
  have h5 : attachAll σ.stream.next (visits τ pattern (σ.node.next + 1) dataNode) τ = some σ' := by
    apply walk_eq _ _ hwalk
    rw [hnew]
    rfl
  obtain ⟨h6, -, -, -⟩ := attachAll_next h5
  have hnext : σ'.stream.next = σ.stream.next + 1 := by
    rw [h6, ← hτ]
    rfl
  -- the listeners of the other queries are those of before
  have hold : ∀ st stream, σ'.stream.get st = some stream → st ≠ σ.stream.next →
      ∃ stream0, σ.stream.get st = some stream0 ∧ stream0.pattern = stream.pattern := by
    intro st stream hst hne
    obtain ⟨stream0, h7, h8⟩ := h3.get hst
    rw [← hτ] at h7
    change (σ.stream.alloc _).get st = some stream0 at h7
    rw [Heap.get_alloc, if_neg hne] at h7
    exact ⟨stream0, h7, h8⟩
  have hpat : ∀ stream, σ'.stream.get σ.stream.next = some stream → stream.pattern = pattern := by
    intro stream hst
    obtain ⟨stream0, h7, h8⟩ := h3.get hst
    cases hnew.symm.trans h7
    exact h8.symm
  have hmem : ∀ {n : Nat}, (n, Callback.childAdded) ∈ visits τ pattern (σ.node.next + 1) dataNode ↔
      Selected σ' pattern n := by
    intro n
    rw [selected_congr h2, ← hnode]
    exact mem_visits hT
  refine ⟨hT.congr h2, h1, ?_, ?_, ?_⟩
  · intro cb st n hle
    rw [hnext] at hle
    rw [h4, hcount, hσ.fresh cb st n (Nat.le_of_succ_le hle), if_neg (Nat.ne_of_gt hle)]
  · intro st stream n node hst hn
    rw [h4, hcount]
    by_cases hne : st = σ.stream.next
    · subst hne
      rw [if_pos rfl, hσ.fresh _ _ _ (Nat.le_refl _), Nat.zero_add, hpat stream hst]
      exact (once_count (visits_nodup hT _ _ _) _).congr hmem
    · obtain ⟨stream0, h7, h8⟩ := hold st stream hst hne
      obtain ⟨node0, hn0, -⟩ := (hshape.trans h2).symm.get hn
      rw [if_neg hne, Nat.add_zero, ← h8]
      exact (hσ.childAdded st stream0 n node0 h7 hn0).congr (selected_congr (hshape.trans h2)).symm
  · intro st stream n node hst hn
    obtain ⟨node0, hn0, hs⟩ := (hshape.trans h2).symm.get hn
    simp only [Node.shape, Prod.mk.injEq] at hs
    rw [h4, hcount, ← hs.1]
    by_cases hne : st = σ.stream.next
    · subst hne
      rw [if_pos rfl, hσ.fresh _ _ _ (Nat.le_refl _), Nat.zero_add, hpat stream hst]
      apply (once_count (visits_nodup hT _ _ _) _).congr
      rw [selected_congr h2, ← hnode]
      exact mem_visits_value hT (hnode ▸ hn0)
    · obtain ⟨stream0, h7, h8⟩ := hold st stream hst hne
      rw [if_neg hne, Nat.add_zero, ← h8]
      exact (hσ.valueUpdate st stream0 n node0 h7 hn0).congr
        (and_congr_left (fun _ => (selected_congr (hshape.trans h2)).symm))

/-! ## A new node -/

theorem linkChild_get (hp : σ.node.get p = some node) (name : CString) (m : NodeId) :
    (σ.linkChild p node name).node.get m =
      if m = σ.node.next then some ⟨childPath node.path name, name, some p, .empty, none, [], []⟩
      else if m = p then some { node with children := node.children.set name σ.node.next }
      else σ.node.get m := by
  show ((σ.node.alloc _).modify p _).get m = _
  rw [Heap.get_modify]
  by_cases hm : m = p
  · subst hm
    rw [if_pos rfl, Heap.get_alloc_of_get hp, if_neg (Heap.ne_next_of_get hp), if_pos rfl]
    rfl
  · rw [if_neg hm, Heap.get_alloc, if_neg hm]

/-- The nodes that were there keep their paths and parents. -/
theorem linkChild_old (hp : σ.node.get p = some node) (name : CString) {x : Node} (hm : σ.node.get m = some x) :
    ∃ x', (σ.linkChild p node name).node.get m = some x' ∧ x'.path = x.path ∧ x'.name = x.name ∧
      x'.parent = x.parent ∧ (∀ cb, x'.dispatcher cb = x.dispatcher cb) ∧
      (∀ k, x'.children.get k = if m = p ∧ k = name then some σ.node.next else x.children.get k) := by
  rw [linkChild_get hp, if_neg (Heap.ne_next_of_get hm)]
  by_cases hmp : m = p
  · subst hmp
    cases hp.symm.trans hm
    rw [if_pos rfl]
    refine ⟨_, rfl, rfl, rfl, rfl, fun cb => (by cases cb <;> rfl), fun k => ?_⟩
    show (node.children.set name σ.node.next).get k = _
    rw [AssocMap.get_set]
    simp only [true_and]
  · rw [if_neg hmp]
    refine ⟨x, hm, rfl, rfl, rfl, fun _ => rfl, fun k => ?_⟩
    rw [if_neg (fun h => hmp h.1)]

theorem linkChild_new (hp : σ.node.get p = some node) (name : CString) :
    (σ.linkChild p node name).node.get σ.node.next =
      some ⟨childPath node.path name, name, some p, .empty, none, [], []⟩ := by
  rw [linkChild_get hp, if_pos rfl]

theorem linkChild_get_old (hp : σ.node.get p = some node) {name : CString} {x' : Node}
    (hm : (σ.linkChild p node name).node.get m = some x') (hne : m ≠ σ.node.next) : ∃ x, σ.node.get m = some x := by
  rw [linkChild_get hp, if_neg hne] at hm
  split at hm
  · rename_i hmp
    exact ⟨node, hmp ▸ hp⟩
  · exact ⟨x', hm⟩

theorem tree_linkChild (hσ : Tree σ) (hp : σ.node.get p = some node) {name : CString}
    (hfree : node.children.get name = none) : Tree (σ.linkChild p node name) where
  root := by
    obtain ⟨x, hx, hpar⟩ := hσ.root
    obtain ⟨x', hx', -, -, hpar', -⟩ := linkChild_old hp name hx
    exact ⟨x', hx', hpar'.trans hpar⟩
  child := by
    intro q x' k c hq hc
    by_cases hqn : q = σ.node.next
    · rw [hqn, linkChild_new hp] at hq
      cases hq
      cases hc
    · obtain ⟨x, hx⟩ := linkChild_get_old hp hq hqn
      obtain ⟨x0, hx0, -, -, -, -, hch⟩ := linkChild_old hp name hx
      cases hq.symm.trans hx0
      rw [hch] at hc
      split at hc
      · rename_i h
        cases hc
        refine ⟨Heap.lt_next_of_get hx, _, linkChild_new hp name, ?_, h.2.symm⟩
        rw [h.1]
      · obtain ⟨hlt, y, hy, hpar, hname⟩ := hσ.child q x k c hx hc
        obtain ⟨y', hy', -, hname', hpar', -⟩ := linkChild_old hp name hy
        exact ⟨hlt, y', hy', hpar'.trans hpar, hname'.trans hname⟩
  parent := by
    intro c y' q hc hpar
    by_cases hcn : c = σ.node.next
    · rw [hcn, linkChild_new hp] at hc
      cases hc
      cases hpar
      obtain ⟨x', hx', -, -, -, -, hch⟩ := linkChild_old hp name hp
      refine ⟨x', hx', ?_⟩
      rw [hch, if_pos ⟨rfl, rfl⟩, hcn]
    · obtain ⟨y, hy⟩ := linkChild_get_old hp hc hcn
      obtain ⟨y0, hy0, -, hname, hpar0, -⟩ := linkChild_old hp name hy
      cases hc.symm.trans hy0
      obtain ⟨x, hx, hch⟩ := hσ.parent c y q hy (hpar0.symm.trans hpar)
      obtain ⟨x', hx', -, -, -, -, hch'⟩ := linkChild_old hp name hx
      refine ⟨x', hx', ?_⟩
      rw [hch', hname, if_neg]
      · exact hch
      · rintro ⟨rfl, hk⟩
        cases hp.symm.trans hx
        rw [hk, hfree] at hch
        cases hch

/-- A new node is selected with its parent, if its own path does not fail. -/
theorem selected_linkChild (hσ : Tree σ) (hp : σ.node.get p = some node) {name : CString} :
    Selected (σ.linkChild p node name) pattern m ↔
      if m = σ.node.next then Selected σ pattern p ∧ matchQuery (childPath node.path name) pattern ≠ .notMatch
      else Selected σ pattern m := by
  have hold : ∀ {m : Nat}, Selected σ pattern m → Selected (σ.linkChild p node name) pattern m := by
    intro m h
    induction h with
    | data hn hm =>
      obtain ⟨x', hx', hpath, -⟩ := linkChild_old hp name hn
      exact .data hx' (hpath ▸ hm)
    | child _ hn hq hm ih =>
      obtain ⟨x', hx', hpath, -, hpar, -⟩ := linkChild_old hp name hn
      exact .child ih hx' (hpar.trans hq) (hpath ▸ hm)
  have hlive : ∀ {m : Nat}, Selected (σ.linkChild p node name) pattern m → m ≠ σ.node.next →
      Selected σ pattern m := by
    intro m h
    induction h with
    | data hn hm =>
      intro hne
      obtain ⟨x, hx⟩ := linkChild_get_old hp hn hne
      obtain ⟨x', hx', hpath, -⟩ := linkChild_old hp name hx
      cases hn.symm.trans hx'
      exact .data hx (hpath ▸ hm)
    | @child q c y h hn hq hm ih =>
      intro hne
      obtain ⟨x, hx⟩ := linkChild_get_old hp hn hne
      obtain ⟨x', hx', hpath, -, hpar, -⟩ := linkChild_old hp name hx
      cases hn.symm.trans hx'
      have hq' := hpar.symm.trans hq
      -- the parent of a node that was there was there
      obtain ⟨z, hz, -⟩ := hσ.parent c x q hx hq'
      exact .child (ih (Heap.ne_next_of_get hz)) hx hq' (hpath ▸ hm)
  split
  · rename_i hnew
    constructor
    · intro h
      cases h with
      | data hn _ =>
        obtain ⟨x, hx, -⟩ := hσ.root
        exact absurd hnew (Heap.ne_next_of_get hx)
      | child h hn hq hm =>
        rw [hnew, linkChild_new hp] at hn
        cases hn
        cases hq
        exact ⟨hlive h (Heap.ne_next_of_get hp), hm⟩
    · rintro ⟨h, hm⟩
      rw [hnew]
      exact .child (hold h) (linkChild_new hp name) rfl hm
  · rename_i hm
    exact ⟨fun h => hlive h hm, hold⟩

/-- The walk at a node without children meets that node only. -/
theorem visits_leaf {fuel : Nat} (hn : σ.node.get n = some node) (hc : node.children = .empty) :
    visits σ pattern (fuel + 1) n = visits σ pattern 1 n := by
  rw [visits, visits, hn]
  dsimp only
  rw [hc]
  rfl

theorem mem_visits_leaf {v : NodeId × Callback} (hn : σ.node.get n = some node) (hc : node.children = .empty) :
    v ∈ visits σ pattern 1 n ↔ matchQuery node.path pattern ≠ .notMatch ∧
      (v = (n, .childAdded) ∨ (matchQuery node.path pattern = .fullMatch ∧ v = (n, .valueUpdate))) := by
  rw [mem_visits_succ hn, hc]
  constructor
  · rintro ⟨h1, h | ⟨c, hc, -⟩ | h⟩
    · exact ⟨h1, .inl h⟩
    · exact absurd hc List.not_mem_nil
    · exact ⟨h1, .inr h⟩
  · rintro ⟨h1, h | h⟩
    · exact ⟨h1, .inl h⟩
    · exact ⟨h1, .inr (.inr h)⟩

/-- The state during the callbacks for the new node `c`: `σ` before them, `done` the listeners that were called. -/
structure Calling (σ : State) (c : NodeId) (called : List ListenerId) (τ : State) : Prop where
  shape : SameShape σ τ
  bounded : Bounded τ
  pattern : SamePatterns σ τ
  next : τ.stream.next = σ.stream.next
  listener : ∀ l, l < σ.listener.next → τ.listener.get l = σ.listener.get l
  le : σ.listener.next ≤ τ.listener.next
  count : ∀ st stream cb m, σ.stream.get st = some stream →
    count τ cb st m = count σ cb st m + countIn σ st called * (visits σ stream.pattern 1 c).count (m, cb)
  fresh : ∀ st cb m, σ.stream.get st = none → Query.count τ cb st m = Query.count σ cb st m

theorem calling_step {called : List ListenerId} {l : ListenerId} (hl : l < σ.listener.next)
    (hc : σ.node.get c = some child) (hleaf : child.children = .empty) (hτ : Calling σ c called τ)
    (h : τ.queryChildAdded c l = some σ') : Calling σ c (called ++ [l]) σ' := by
  simp only [State.queryChildAdded, Option.bind_eq_bind, Option.bind_eq_some_iff] at h
  obtain ⟨listener, hlis, h⟩ := h
  have hstream : ∃ stream, τ.stream.get listener.data = some stream := by
    unfold queryChildAddedStream at h
    simp only [Option.bind_eq_bind, Option.bind_eq_some_iff] at h
    obtain ⟨stream, hst, -⟩ := h
    exact ⟨stream, hst⟩
  obtain ⟨stream, hst⟩ := hstream
  obtain ⟨h1, h2, h3, h4⟩ := walk_count hτ.bounded hst h
  have h5 : attachAll listener.data (visits τ stream.pattern (τ.node.next + 1) c) τ = some σ' := by
    apply walk_eq _ _ h
    rw [hst]
    rfl
  obtain ⟨h6, -, h8, h9⟩ := attachAll_next h5
  obtain ⟨stream0, hst0, hpat0⟩ := hτ.pattern.get hst
  have hvis : visits τ stream.pattern (τ.node.next + 1) c = visits σ stream0.pattern 1 c := by
    rw [visits_congr hτ.shape, visits_leaf hc hleaf, hpat0]
  have hlis0 : (σ.listener.get l).map Listener.data = some listener.data := by
    rw [← hτ.listener l hl, hlis]
    rfl
  refine ⟨hτ.shape.trans h2, h1, hτ.pattern.trans h3, h6.trans hτ.next, ?_,
    Nat.le_trans hτ.le h8, ?_, ?_⟩
  · intro x hx
    rw [h9 x (Nat.lt_of_lt_of_le hx hτ.le)]
    exact hτ.listener x hx
  · intro st stream' cb m hst'
    rw [h4, hτ.count st stream' cb m hst', hvis, countIn, countIn, List.countP_append, List.countP_singleton, hlis0,
      Nat.add_mul, Nat.add_assoc]
    congr 2
    by_cases he : st = listener.data
    · subst he
      cases hst0.symm.trans hst'
      simp
    · simp [he, Ne.symm he]
  · intro st cb m hnone
    have hne : st ≠ listener.data := by
      rintro rfl
      cases hnone.symm.trans hst0
    rw [h4, if_neg hne, Nat.add_zero]
    exact hτ.fresh st cb m hnone

theorem calling_all {ls called : List ListenerId} (hls : ∀ l ∈ ls, l < σ.listener.next)
    (hc : σ.node.get c = some child) (hleaf : child.children = .empty) (hτ : Calling σ c called τ)
    (h : ls.foldlM (fun σ l => σ.queryChildAdded c l) τ = some σ') : Calling σ c (called ++ ls) σ' := by
  induction ls generalizing called τ with
  | nil =>
    cases h
    rw [List.append_nil]
    exact hτ
  | cons l ls ih =>
    simp only [List.foldlM_cons, Option.bind_eq_bind, Option.bind_eq_some_iff] at h
    obtain ⟨υ, hυ, h⟩ := h
    have h1 := calling_step (hls l List.mem_cons_self) hc hleaf hτ hυ
    have h2 := ih (fun x hx => hls x (List.mem_cons_of_mem _ hx)) h1 h
    rwa [List.append_assoc] at h2

theorem count_linkChild (hσ : Bounded σ) (hp : σ.node.get p = some node) (name : CString) :
    Bounded (σ.linkChild p node name) ∧ ∀ cb st m, count (σ.linkChild p node name) cb st m = count σ cb st m := by
  have hdisp : ∀ cb m, (((σ.linkChild p node name).node.get m).map (fun node => node.dispatcher cb)).getD [] =
      ((σ.node.get m).map (fun node => node.dispatcher cb)).getD [] := by
    intro cb m
    by_cases hm : m = σ.node.next
    · rw [hm, linkChild_new hp, Heap.get_next]
      cases cb <;> rfl
    · cases hx : σ.node.get m with
      | none =>
        rw [linkChild_get hp, if_neg hm, if_neg, hx]
        rintro rfl
        cases hp.symm.trans hx
      | some x =>
        obtain ⟨x', hx', -, -, -, hd, -⟩ := linkChild_old hp name hx
        rw [hx', Option.map_some, Option.map_some, hd]
  constructor
  · intro m x' cb l hm hl
    have h1 := hdisp cb m
    rw [hm, Option.map_some, Option.getD_some] at h1
    rw [h1] at hl
    exact hσ.mem_lt hl
  · intro cb st m
    unfold count
    rw [hdisp]
    rfl

/-- A node that is added is found by the queries that listen at its parent. -/
theorem watched_brokerNodeAdd {name : CString} (hσ : Watched σ) (h : σ.brokerNodeAdd p name = some σ') :
    Watched σ' := by
  simp only [State.brokerNodeAdd, Option.bind_eq_bind, Option.bind_eq_some_iff] at h
  obtain ⟨node, hp, h⟩ := h
  split at h
  · cases h
    exact hσ
  · rename_i hfree
    rw [Option.not_isSome_iff_eq_none] at hfree
    obtain ⟨hbound, hcount⟩ := count_linkChild hσ.bounded hp name
    have hT := tree_linkChild hσ.tree hp hfree
    have hc := linkChild_new hp name
    have h0 : Calling (σ.linkChild p node name) σ.node.next [] (σ.linkChild p node name) := by
      refine ⟨.refl _, hbound, fun _ => rfl, rfl, fun _ _ => rfl, Nat.le_refl _, ?_, fun _ _ _ _ => rfl⟩
      intro st stream cb m _
      rw [countIn, List.countP_nil, Nat.zero_mul, Nat.add_zero]
    have h1 : Calling (σ.linkChild p node name) σ.node.next ([] ++ node.onChildAdded) σ' :=
      calling_all (fun l hl => hσ.bounded p node .childAdded l hp hl) hc rfl h0 h
    rw [List.nil_append] at h1
    have hself : ∀ st, countIn (σ.linkChild p node name) st node.onChildAdded = count σ .childAdded st p := by
      intro st
      unfold count
      rw [hp]
      rfl
    have hstream : ∀ st stream, σ'.stream.get st = some stream →
        ∃ stream0, σ.stream.get st = some stream0 ∧ stream0.pattern = stream.pattern :=
      fun st stream hst => h1.pattern.get hst
    -- the count at the new node is that of its visits, at any other node it stays
    have hcases : ∀ st stream cb m x, σ'.stream.get st = some stream → σ'.node.get m = some x →
        (m = σ.node.next ∧ x.path = childPath node.path name ∧ count σ' cb st m =
          count σ .childAdded st p * (visits (σ.linkChild p node name) stream.pattern 1 σ.node.next).count (m, cb)) ∨
        (m ≠ σ.node.next ∧ (∃ x0, σ.node.get m = some x0 ∧ x0.path = x.path) ∧
          count σ' cb st m = count σ cb st m) := by
      intro st stream cb m x hst hm
      obtain ⟨stream0, hst0, hpat⟩ := hstream st stream hst
      have h2 := h1.count st stream0 cb m hst0
      obtain ⟨x1, hx1, hs⟩ := h1.shape.symm.get hm
      simp only [Node.shape, Prod.mk.injEq] at hs
      rw [hself, hcount, hpat] at h2
      by_cases hnew : m = σ.node.next
      · refine .inl ⟨hnew, ?_, ?_⟩
        · rw [hnew, hc] at hx1
          cases hx1
          exact hs.1.symm
        · rw [h2, Nat.add_eq_right]
          unfold count
          rw [hnew, Heap.get_next]
          rfl
      · refine .inr ⟨hnew, ?_, ?_⟩
        · obtain ⟨x0, hx0⟩ := linkChild_get_old hp hx1 hnew
          obtain ⟨x2, hx2, hpath, -⟩ := linkChild_old hp name hx0
          cases hx1.symm.trans hx2
          exact ⟨x0, hx0, hpath.symm.trans hs.1⟩
        · rw [h2, List.count_eq_zero_of_not_mem, Nat.mul_zero, Nat.add_zero]
          rw [mem_visits_leaf hc rfl]
          rintro ⟨-, h | ⟨-, h⟩⟩
          · exact hnew (Prod.mk.inj h).1
          · exact hnew (Prod.mk.inj h).1
    have hsel : ∀ {pattern m}, Selected σ' pattern m ↔ if m = σ.node.next then
        Selected σ pattern p ∧ matchQuery (childPath node.path name) pattern ≠ .notMatch
      else Selected σ pattern m := fun {pattern m} =>
      (selected_congr h1.shape).trans (selected_linkChild hσ.tree hp)
    refine ⟨hT.congr h1.shape, h1.bounded, ?_, ?_, ?_⟩
    · intro cb st m hle
      rw [h1.next] at hle
      rw [h1.fresh st cb m (Heap.get_of_next_le hle), hcount]
      exact hσ.fresh cb st m hle
    · intro st stream m x hst hm
      obtain ⟨stream0, hst0, hpat⟩ := hstream st stream hst
      rcases hcases st stream .childAdded m x hst hm with ⟨hnew, -, hk⟩ | ⟨hold, ⟨x0, hx0, -⟩, hk⟩
      · rw [hk]
        have h3 := once_mul (hσ.childAdded st stream0 p node hst0 hp)
          (fun _ => once_count (visits_nodup hT stream.pattern 1 σ.node.next) (m, .childAdded))
        apply h3.congr
        rw [hsel, if_pos hnew, hpat, mem_visits_leaf hc rfl, hnew]
        simp
      · rw [hk]
        apply (hσ.childAdded st stream0 m x0 hst0 hx0).congr
        rw [hsel, if_neg hold, hpat]
    · intro st stream m x hst hm
      obtain ⟨stream0, hst0, hpat⟩ := hstream st stream hst
      rcases hcases st stream .valueUpdate m x hst hm with ⟨hnew, hpath, hk⟩ | ⟨hold, ⟨x0, hx0, hpath⟩, hk⟩
      · rw [hk]
        have h3 := once_mul (hσ.childAdded st stream0 p node hst0 hp)
          (fun _ => once_count (visits_nodup hT stream.pattern 1 σ.node.next) (m, .valueUpdate))
        apply h3.congr
        rw [hsel, if_pos hnew, hpat, mem_visits_leaf hc rfl, hnew, hpath]
        simp [and_assoc]
      · rw [hk]
        apply (hσ.valueUpdate st stream0 m x0 hst0 hx0).congr
        rw [hsel, if_neg hold, hpat, hpath]

/-! ## Nothing goes wrong on the way -/

/-- Every listener in a dispatcher is alive, and so is its query. -/
def Alive (σ : State) : Prop :=
  ∀ n node cb l, σ.node.get n = some node → l ∈ node.dispatcher cb →
    ∃ x stream, σ.listener.get l = some x ∧ σ.stream.get x.data = some stream

theorem attachAll_alive {l : List (NodeId × Callback)} (hσ : Alive σ) (hb : Bounded σ)
    (h : attachAll st l σ = some σ') : Alive σ' := by
  have h1 : Alive σ' ∧ Bounded σ' := by
    apply foldlM_invariant (fun τ => Alive τ ∧ Bounded τ) ?_ h ⟨hσ, hb⟩
    rintro τ v - υ ⟨h1, h2⟩ hs
    refine ⟨?_, attach_bounded h2 hs⟩
    obtain ⟨hd, hl, -, -⟩ := attach_spec hs
    obtain ⟨-, hpat⟩ := attach_shape hs
    intro m node cb x hm hx
    have h3 := hd m cb
    rw [hm, Option.map_some, Option.getD_some] at h3
    rw [h3] at hx
    have hlive : ∃ y stream, υ.listener.get x = some y ∧ τ.stream.get y.data = some stream := by
      rcases List.mem_append.mp hx with hx | hx
      · rw [hl, Heap.get_alloc, if_neg (Nat.ne_of_lt (h2.mem_lt hx))]
        cases hm' : τ.node.get m with
        | none =>
          rw [hm'] at hx
          exact absurd hx List.not_mem_nil
        | some node' =>
          rw [hm'] at hx
          exact h1 m node' cb x hm' hx
      · split at hx
        · rw [List.mem_singleton.mp hx, hl, Heap.get_alloc_next]
          simp only [attach, Option.bind_eq_bind, Option.bind_eq_some_iff] at hs
          obtain ⟨_, -, stream, hst, -⟩ := hs
          exact ⟨_, stream, rfl, hst⟩
        · exact absurd hx List.not_mem_nil
    obtain ⟨y, stream, hy, hst⟩ := hlive
    have h4 := hpat y.data
    rw [hst] at h4
    obtain ⟨stream', hst', -⟩ := Option.map_eq_some_iff.mp h4
    exact ⟨y, stream', hy, hst'⟩
  exact h1.1

theorem attach_total (hst : σ.stream.get st = some stream) (hn : σ.node.get n = some node) (cb : Callback) :
    ∃ σ', σ.attach st n cb = some σ' := by
  unfold attach
  rw [hn, hst]
  exact ⟨_, rfl⟩

/-- A walk comes to its end. -/
theorem walk_total {fuel : Nat} (hT : Tree σ) (hst : (σ.stream.get st).map QueryStream.pattern = some pattern)
    (hn : σ.node.get n = some node) (hf : σ.node.next < n + fuel) :
    ∃ σ', queryChildAddedStream st fuel σ n = some σ' := by
  induction fuel generalizing σ n node with
  | zero =>
    have hlt := Heap.lt_next_of_get hn
    omega
  | succ fuel ih =>
    obtain ⟨stream, hstream, hpat⟩ := Option.map_eq_some_iff.mp hst
    unfold queryChildAddedStream
    rw [hstream, hn]
    simp only [Option.bind_eq_bind, Option.bind_some]
    split
    · exact ⟨σ, rfl⟩
    · obtain ⟨τ, hτ⟩ := attach_total hstream hn .childAdded
      obtain ⟨hs, hp⟩ := attach_shape hτ
      obtain ⟨-, -, -, hnext⟩ := attach_spec hτ
      have hround : ∀ υ, ∀ c ∈ node.children.values,
          (SameShape σ υ ∧ (υ.stream.get st).map QueryStream.pattern = some pattern ∧ υ.node.next = σ.node.next) →
          ∃ φ, queryChildAddedStream st fuel υ c = some φ ∧ SameShape σ φ ∧
            (φ.stream.get st).map QueryStream.pattern = some pattern ∧ φ.node.next = σ.node.next := by
        rintro υ c hc ⟨h1, h2, h3⟩
        obtain ⟨k, hk⟩ := AssocMap.mem_values.mp hc
        obtain ⟨hlt, child, hch, -⟩ := hT.child n node k c hn hk
        obtain ⟨child', hch', -⟩ := h1.get hch
        obtain ⟨φ, hφ⟩ := ih (hT.congr h1) h2 hch' (by rw [h3]; omega)
        have h4 := walk_eq fuel h2 hφ
        obtain ⟨h5, h6⟩ := attachAll_shape h4
        obtain ⟨-, h7, -⟩ := attachAll_next h4
        exact ⟨φ, hφ, h1.trans h5, (h6 st).trans h2, h7.trans h3⟩
      obtain ⟨υ, hυ, hs', hp', -⟩ := foldlM_total _ hround ⟨hs, (hp st).trans hst, hnext⟩
      rw [hτ, Option.bind_some, hυ, Option.bind_some]
      split
      · obtain ⟨node', hn', -⟩ := hs'.get hn
        obtain ⟨stream', hst', -⟩ := Option.map_eq_some_iff.mp hp'
        exact attach_total hst' hn' .valueUpdate
      · exact ⟨υ, rfl⟩

/-- A callback for a new node attaches for one query. -/
theorem queryChildAdded_attaches {l : ListenerId} (h : σ.queryChildAdded c l = some σ') :
    ∃ st visited, attachAll st visited σ = some σ' := by
  simp only [State.queryChildAdded, Option.bind_eq_bind, Option.bind_eq_some_iff] at h
  obtain ⟨listener, -, h⟩ := h
  have hw := h
  unfold queryChildAddedStream at h
  simp only [Option.bind_eq_bind, Option.bind_eq_some_iff] at h
  obtain ⟨stream, hst, -⟩ := h
  refine ⟨listener.data, visits σ stream.pattern (σ.node.next + 1) c, walk_eq _ ?_ hw⟩
  rw [hst]
  rfl

theorem alive_linkChild (hσ : Alive σ) (hp : σ.node.get p = some node) (name : CString) :
    Alive (σ.linkChild p node name) := by
  intro m x' cb l hm hl
  by_cases hnew : m = σ.node.next
  · rw [hnew, linkChild_new hp] at hm
    cases hm
    cases cb <;> exact absurd hl List.not_mem_nil
  · obtain ⟨x, hx⟩ := linkChild_get_old hp hm hnew
    obtain ⟨x0, hx0, -, -, -, hd, -⟩ := linkChild_old hp name hx
    cases hm.symm.trans hx0
    rw [hd] at hl
    exact hσ m x cb l hx hl

theorem alive_brokerNodeAdd {name : CString} (hσ : Alive σ) (hb : Bounded σ)
    (h : σ.brokerNodeAdd p name = some σ') : Alive σ' := by
  simp only [State.brokerNodeAdd, Option.bind_eq_bind, Option.bind_eq_some_iff] at h
  obtain ⟨node, hp, h⟩ := h
  split at h
  · cases h
    exact hσ
  · have h1 : Alive σ' ∧ Bounded σ' := by
      apply foldlM_invariant (fun τ => Alive τ ∧ Bounded τ) ?_ h
        ⟨alive_linkChild hσ hp name, (count_linkChild hb hp name).1⟩
      rintro τ l - υ ⟨h1, h2⟩ hs
      obtain ⟨st, visited, hv⟩ := queryChildAdded_attaches hs
      exact ⟨attachAll_alive h1 h2 hv, (attachAll_count h2 hv).1⟩
    exact h1.1

theorem alive_queryInvoke {requester rid : Nat} (hσ : Alive σ) (hb : Bounded σ)
    (h : σ.queryInvoke requester rid pattern = some σ') : Alive σ' := by
  have h1 : Alive (σ.openStream requester rid pattern) := by
    intro m x cb l hm hl
    obtain ⟨y, stream, hy, hst⟩ := hσ m x cb l hm hl
    exact ⟨y, stream, hy, Heap.get_alloc_of_get hst⟩
  have h2 : attachAll σ.stream.next (visits (σ.openStream requester rid pattern) pattern (σ.node.next + 1) dataNode)
      (σ.openStream requester rid pattern) = some σ' := by
    apply walk_eq _ _ h
    show ((σ.stream.alloc _).get σ.stream.next).map _ = _
    rw [Heap.get_alloc_next]
    rfl
  exact attachAll_alive h1 hb h2

/-- Every callback for a new node is defined. -/
theorem brokerNodeAdd_total (hT : Tree σ) (hσ : Alive σ) (hp : σ.node.get p = some node) (name : CString) :
    ∃ σ', σ.brokerNodeAdd p name = some σ' := by
  unfold State.brokerNodeAdd
  rw [hp]
  simp only [Option.bind_eq_bind, Option.bind_some]
  split
  · exact ⟨σ, rfl⟩
  · rename_i hfree
    rw [Option.not_isSome_iff_eq_none] at hfree
    have hT1 := tree_linkChild hT hp hfree
    have hlive : ∀ l ∈ node.onChildAdded, l < σ.listener.next := by
      intro l hl
      obtain ⟨x, -, hx, -⟩ := hσ p node .childAdded l hp hl
      exact Heap.lt_next_of_get hx
    -- what the callbacks leave alone
    let kept (υ : State) : Prop := SameShape (σ.linkChild p node name) υ ∧
      SamePatterns σ υ ∧ υ.node.next = σ.node.next + 1 ∧ σ.listener.next ≤ υ.listener.next ∧
      ∀ l, l < σ.listener.next → υ.listener.get l = σ.listener.get l
    have hround : ∀ υ, ∀ l ∈ node.onChildAdded, kept υ → ∃ φ, υ.queryChildAdded σ.node.next l = some φ ∧ kept φ := by
      rintro υ l hl ⟨h1, h2, h3, h4, h5⟩
      obtain ⟨x, stream, hx, hst⟩ := hσ p node .childAdded l hp hl
      have hpat : (υ.stream.get x.data).map QueryStream.pattern = some stream.pattern := by
        rw [h2, hst]
        rfl
      obtain ⟨child, hch, -⟩ := h1.get (linkChild_new hp name)
      have hfuel : υ.node.next < σ.node.next + (υ.node.next + 1) := by omega
      obtain ⟨φ, hφ⟩ := walk_total (hT1.congr h1) hpat hch hfuel
      refine ⟨φ, ?_, ?_⟩
      · unfold State.queryChildAdded
        rw [h5 l (hlive l hl), hx]
        exact hφ
      · have h6 := walk_eq _ hpat hφ
        obtain ⟨h7, h8⟩ := attachAll_shape h6
        obtain ⟨-, h9, h10, h11⟩ := attachAll_next h6
        refine ⟨h1.trans h7, h2.trans h8, h9.trans h3, Nat.le_trans h4 h10, fun l hl => ?_⟩
        rw [h11 l (Nat.lt_of_lt_of_le hl h4)]
        exact h5 l hl
    obtain ⟨υ, hυ, -⟩ := foldlM_total kept hround ⟨.refl _, fun _ => rfl, rfl, Nat.le_refl _, fun _ _ => rfl⟩
    exact ⟨υ, hυ⟩

theorem queryInvoke_total (hT : Tree σ) (requester rid : Nat) (pattern : CString) :
    ∃ σ', σ.queryInvoke requester rid pattern = some σ' := by
  obtain ⟨node, hn, -⟩ := hT.root
  have hshape : SameShape σ (σ.openStream requester rid pattern) := .refl σ
  have hst : ((σ.openStream requester rid pattern).stream.get σ.stream.next).map QueryStream.pattern
      = some pattern := by
    show ((σ.stream.alloc _).get σ.stream.next).map _ = _
    rw [Heap.get_alloc_next]
    rfl
  apply walk_total (hT.congr hshape) hst hn
  show σ.node.next < dataNode + (σ.node.next + 1)
  omega

end

/-! ## Runs -/

/-- The events that build the tree and start queries. -/
def Event.builds : Event → Bool
  | .addNode _ _ => true
  | .query _ _ _ => true
  | _ => false

/-- The node that an addition is for is there. -/
def Event.Callable (σ : State) : Event → Prop
  | .addNode parent _ => ∃ node, σ.node.get parent = some node
  | _ => True

theorem watched_init : Watched init where
  tree :=
    { root := ⟨_, rfl, rfl⟩
      child := by
        intro p node k c hp hc
        change (Heap.empty.alloc _).get p = some node at hp
        rw [Heap.get_alloc] at hp
        split at hp
        · cases hp
          cases hc
        · cases hp
      parent := by
        intro c child p hc hp
        change (Heap.empty.alloc _).get c = some child at hc
        rw [Heap.get_alloc] at hc
        split at hc
        · cases hc
          cases hp
        · cases hc }
  bounded := by
    intro n node cb l hn hl
    change (Heap.empty.alloc _).get n = some node at hn
    rw [Heap.get_alloc] at hn
    split at hn
    · cases hn
      cases cb <;> exact absurd hl List.not_mem_nil
    · cases hn
  fresh := by
    intro cb st n _
    unfold count
    cases hn : init.node.get n with
    | none => rfl
    | some node =>
      change (Heap.empty.alloc _).get n = some node at hn
      rw [Heap.get_alloc] at hn
      split at hn
      · cases hn
        cases cb <;> rfl
      · cases hn
  childAdded := fun _ _ _ _ h => (by cases h)
  valueUpdate := fun _ _ _ _ h => (by cases h)

theorem step_watched {σ σ' : State} {e : Event} (hσ : Watched σ ∧ Alive σ) (he : e.builds = true)
    (h : step σ e = some σ') : Watched σ' ∧ Alive σ' := by
  cases e with
  | addNode p name => exact ⟨watched_brokerNodeAdd hσ.1 h, alive_brokerNodeAdd hσ.2 hσ.1.bounded h⟩
  | query requester rid q =>
    simp only [step] at h
    cases hq : parseQuery q with
    | none =>
      rw [hq] at h
      cases h
      exact hσ
    | some pattern =>
      rw [hq] at h
      exact ⟨watched_queryInvoke hσ.1 h, alive_queryInvoke hσ.2 hσ.1.bounded h⟩
  | removeNode n => cases he
  | updateValue n value => cases he
  | close st => cases he

theorem step_total {σ : State} {e : Event} (hσ : Watched σ ∧ Alive σ) (he : e.builds = true) (hc : e.Callable σ) :
    (step σ e).isSome = true := by
  rw [Option.isSome_iff_exists]
  cases e with
  | addNode p name =>
    obtain ⟨node, hp⟩ := hc
    exact brokerNodeAdd_total hσ.1.tree hσ.2 hp name
  | query requester rid q =>
    simp only [step]
    cases parseQuery q with
    | none => exact ⟨σ, rfl⟩
    | some pattern => exact queryInvoke_total hσ.1.tree requester rid pattern
  | removeNode n => cases he
  | updateValue n value => cases he
  | close st => cases he

/-- In every order in which nodes are added and queries are started, each query listens for children once at every
    node it selects and at no other, and for values once at every selected node that matches and at no other; and
    whatever comes next, an addition or another query, comes to its end. -/
theorem query_sees_all {σ : State} (h : Reach step (fun _ e => e.builds = true) (· = init) σ) :
    (∀ st stream n node, σ.stream.get st = some stream → σ.node.get n = some node →
      Once (Selected σ stream.pattern n) (count σ .childAdded st n) ∧
      Once (Selected σ stream.pattern n ∧ matchQuery node.path stream.pattern = .fullMatch)
        (count σ .valueUpdate st n)) ∧
    ∀ e, e.builds = true → e.Callable σ → (step σ e).isSome = true := by
  have hσ : Watched σ ∧ Alive σ := by
    apply h.invariant (fun σ => Watched σ ∧ Alive σ)
    · rintro _ rfl
      refine ⟨watched_init, ?_⟩
      intro n node cb l hn hl
      have hb := watched_init.bounded n node cb l hn hl
      exact absurd hb (Nat.not_lt_zero _)
    · exact fun _ _ _ hi hok hs => step_watched hi hok hs
  refine ⟨fun st stream n node hst hn => ?_, fun e he hc => step_total hσ he hc⟩
  exact ⟨hσ.1.childAdded st stream n node hst hn, hσ.1.valueUpdate st stream n node hst hn⟩

/-- `/data/a` is there when the query starts, `/data/a/b` comes later. -/
theorem query_sees_all_later :
    ∃ σ, Reach step (fun _ e => e.builds = true) (· = init) σ ∧ ∃ stream node,
      σ.stream.get 0 = some stream ∧ σ.node.get 2 = some node ∧ count σ .valueUpdate 0 2 = 1 ∧
        Once (Selected σ stream.pattern 2 ∧ matchQuery node.path stream.pattern = .fullMatch) 1 := by
  obtain ⟨σ, hr, hc⟩ := Reach.of_guarded step (fun _ e => e.builds = true) (some init)
    [.addNode 0 (cstr "a"), .query 7 3 (cstr "list /data/?/b|"), .addNode 1 (cstr "b")]
    (fun σ => (σ.stream.get 0).isSome && (σ.node.get 2).isSome && count σ .valueUpdate 0 2 == 1) (by decide)
  have hr' : Reach step (fun _ e => e.builds = true) (· = init) σ :=
    hr.of_init (fun s hs => (Option.some.inj hs).symm)
  simp only [Bool.and_eq_true, beq_iff_eq, Option.isSome_iff_exists] at hc
  obtain ⟨⟨⟨stream, hst⟩, node, hn⟩, hk⟩ := hc
  have h := ((query_sees_all hr').1 0 stream 2 node hst hn).2
  rw [hk] at h
  exact ⟨σ, hr', stream, node, hst, hn, hk, h⟩

end DSLink.Query
