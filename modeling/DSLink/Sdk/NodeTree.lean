import DSLink.Sdk.ListStreams

/-!
# `Sdk.NodeTree` — names and paths in the tree of a responder

`dslink_node_create` gives a node its name and makes its path out of its parent's path, `dslink_node_add_child`
refuses a second child of one name. So the names that lead to a node say what its path is, and a path below a node
is longer than the node's own.

An application prepares a node before it adds it: `nodeAdd` takes one that has metadata and nodes below it already.

## Contents
- `Node.made`: a tree as these functions make it; `Node.made_find`, `Node.made_modifyAt`, `Node.mem_paths`.
- `State.nodeAdd`, `State.nodeRemoveAt`, `State.nodeSetMetaUnlinked`: what an application calls.
- `Edit`, `edit`: the calls, with a place in the tree.
-/

namespace DSLink.Responder

namespace Node

variable {node c root : Node} {name key : CString} {names sub : List CString} {p path : CString}

/-! ## Looking for a node -/

@[simp] theorem data_mk (data : NodeData) (l : List (CString × Node)) : (Node.mk data l).data = data := rfl

@[simp] theorem children_mk (data : NodeData) (l : List (CString × Node)) : (Node.mk data l).children = l := rfl

@[simp] theorem child_mk (data : NodeData) (l : List (CString × Node)) :
    (Node.mk data l).child name = AssocMap.lookupIn name l := rfl

@[simp] theorem find_nil : node.find [] = some node := by rw [find]

@[simp] theorem find_cons : node.find (name :: names) = (node.child name).bind (fun c => c.find names) := by rw [find]

theorem find_append : node.find (names ++ sub) = (node.find names).bind (fun c => c.find sub) := by
  induction names generalizing node with
  | nil => rfl
  | cons name names ih =>
    rw [List.cons_append, find_cons, find_cons, Option.bind_assoc]
    apply Option.bind_congr
    intro c _
    exact ih

@[simp] theorem modifyAt_nil (f : Node → Node) : node.modifyAt f [] = f node := by rw [modifyAt]

theorem modifyAt_cons (f : Node → Node) : node.modifyAt f (name :: names) =
    .mk node.data (node.children.map (fun c => if c.1 = name then (c.1, c.2.modifyAt f names) else c)) := by
  rw [modifyAt]

@[simp] theorem data_modifyAt_cons (f : Node → Node) : (node.modifyAt f (name :: names)).data = node.data := by
  rw [modifyAt_cons]
  rfl

theorem keys_modify (f : Node → Node) (l : List (CString × Node)) :
    (l.map (fun c => if c.1 = name then (c.1, f c.2) else c)).map Prod.fst = l.map Prod.fst := by
  rw [List.map_map]
  apply List.map_congr_left
  intro e _
  dsimp only [Function.comp]
  split <;> rfl

/-- A change of all entries under one name. -/
theorem lookupIn_modify (f : Node → Node) (l : List (CString × Node)) :
    AssocMap.lookupIn key (l.map (fun c => if c.1 = name then (c.1, f c.2) else c)) =
      if key = name then (AssocMap.lookupIn key l).map f else AssocMap.lookupIn key l := by
  induction l with
  | nil => simp [AssocMap.lookupIn]
  | cons e l ih =>
    obtain ⟨name', c⟩ := e
    rw [List.map_cons]
    by_cases hname : name' = name
    · subst hname
      by_cases hkey : key = name'
      · subst hkey
        simp [AssocMap.lookupIn]
      · simp [AssocMap.lookupIn, ih, Ne.symm hkey, hkey]
    · by_cases hkey : key = name
      · subst hkey
        simp [AssocMap.lookupIn, ih, hname]
      · simp [AssocMap.lookupIn, ih, hname, hkey]

theorem child_modifyAt (f : Node → Node) : (node.modifyAt f (name :: names)).child key =
    if key = name then (node.child key).map (fun c => c.modifyAt f names) else node.child key := by
  rw [modifyAt_cons]
  exact lookupIn_modify (fun c => c.modifyAt f names) node.children

/-- A change at a node or below it. -/
theorem find_modifyAt (f : Node → Node) :
    (root.modifyAt f (names ++ sub)).find names = (root.find names).map (fun node => node.modifyAt f sub) := by
  induction names generalizing root with
  | nil => rfl
  | cons name names ih =>
    rw [List.cons_append, find_cons, find_cons, child_modifyAt, if_pos rfl]
    cases root.child name with
    | none => rfl
    | some c => exact ih

theorem find_modifyAt_self (f : Node → Node) : (root.modifyAt f names).find names = (root.find names).map f := by
  have hmod : (root.modifyAt f (names ++ [])).find names = (root.find names).map (fun node => node.modifyAt f []) :=
    find_modifyAt f
  rw [List.append_nil] at hmod
  exact hmod

/-! ## Trees as they are made -/

mutual

/-- The tree is as `dslink_node_create` and `dslink_node_add_child` make it, the path and the name of its top node
    being given. -/
def made (path name : CString) : Node → Bool
  | .mk data children =>
    decide (data.path = path ∧ data.name = name ∧ (children.map Prod.fst).Nodup) && madeBelow path children

def madeBelow (path : CString) : List (CString × Node) → Bool
  | [] => true
  | (name, c) :: rest => made (childPath path name) name c && madeBelow path rest

end

theorem madeBelow_iff {l : List (CString × Node)} :
    madeBelow path l = true ↔ ∀ e ∈ l, made (childPath path e.1) e.1 e.2 = true := by
  induction l with
  | nil => simp [madeBelow]
  | cons e l ih => simp [madeBelow, ih]

theorem made_iff : node.made path name = true ↔ node.data.path = path ∧ node.data.name = name ∧
    (node.children.map Prod.fst).Nodup ∧ ∀ e ∈ node.children, made (childPath path e.1) e.1 e.2 = true := by
  cases node with
  | mk data children =>
    rw [made, Bool.and_eq_true, decide_eq_true_eq, madeBelow_iff]
    exact ⟨fun ⟨⟨h1, h2, h3⟩, h4⟩ => ⟨h1, h2, h3, h4⟩, fun ⟨h1, h2, h3, h4⟩ => ⟨⟨h1, h2, h3⟩, h4⟩⟩

theorem made_nodup (h : node.made path name = true) : (node.children.map Prod.fst).Nodup := (made_iff.mp h).2.2.1

theorem made_child (h : node.made path name = true) (hc : node.child key = some c) :
    c.made (childPath path key) key = true :=
  (made_iff.mp h).2.2.2 (key, c) ((AssocMap.lookupIn_eq_some (made_nodup h)).mp hc)

/-- The path that the names lead to. -/
def pathAt (path : CString) (names : List CString) : CString := names.foldl childPath path

theorem pathAt_append : pathAt path (names ++ sub) = pathAt (pathAt path names) sub := List.foldl_append

/-- The names that lead to a node say what its path is. -/
theorem made_find (h : root.made path name = true) (hn : root.find names = some node) :
    ∃ name', node.made (pathAt path names) name' = true := by
  induction names generalizing root path name with
  | nil =>
    cases hn
    exact ⟨name, h⟩
  | cons key names ih =>
    obtain ⟨c, hc, hn⟩ := Option.bind_eq_some_iff.mp (find_cons.symm.trans hn)
    exact ih (made_child h hc) hn

theorem made_data_path (h : node.made path name = true) : node.data.path = path := (made_iff.mp h).1

/-- A change at one node that keeps what is made. -/
theorem made_modifyAt {f : Node → Node} (h : root.made path name = true)
    (hf : ∀ node name', root.find names = some node → node.made (pathAt path names) name' = true →
      (f node).made (pathAt path names) name' = true) :
    (root.modifyAt f names).made path name = true := by
  induction names generalizing root path name with
  | nil => exact hf root name rfl h
  | cons key names ih =>
    obtain ⟨h1, h2, h3, h4⟩ := made_iff.mp h
    rw [modifyAt_cons]
    apply made_iff.mpr
    refine ⟨h1, h2, ?_, ?_⟩
    · rw [children_mk, keys_modify (fun c => c.modifyAt f names)]
      exact h3
    · intro e he
      obtain ⟨e', he', rfl⟩ := List.mem_map.mp he
      split
      · rename_i hkey
        subst hkey
        apply ih (h4 e' he')
        intro node name' hn hmade
        apply hf node name' ?_ hmade
        rw [find_cons, child, (AssocMap.lookupIn_eq_some h3).mpr he']
        exact hn
      · exact h4 e' he'

/-! ## Paths below a node -/

theorem prefix_childPath : path <+: childPath path name := List.prefix_append _ _

theorem prefix_pathAt : path <+: pathAt path names := by
  induction names generalizing path with
  | nil => exact List.prefix_rfl
  | cons name names ih => exact prefix_childPath.trans ih

theorem childPath_length : path.length < (childPath path name).length := by
  rw [childPath, List.length_append, List.length_cons]
  omega

/-- A path below a node is longer than the path of the node. -/
theorem pathAt_length (h : sub ≠ []) : path.length < (pathAt path sub).length := by
  cases sub with
  | nil => exact absurd rfl h
  | cons name sub => exact Nat.lt_of_lt_of_le childPath_length prefix_pathAt.length_le

mutual

theorem prefix_of_mem_paths : {node : Node} → {path name p : CString} → node.made path name = true →
    p ∈ node.paths → path <+: p
  | .mk data children, path, name, p, h, hp => by
    obtain ⟨h1, -, -, h4⟩ := made_iff.mp h
    rw [paths] at hp
    rcases List.mem_cons.mp hp with rfl | hp
    · exact h1 ▸ List.prefix_rfl
    · exact prefix_of_mem_pathsBelow (madeBelow_iff.mpr h4) hp

theorem prefix_of_mem_pathsBelow : {l : List (CString × Node)} → {path p : CString} → madeBelow path l = true →
    p ∈ pathsBelow l → path <+: p
  | [], _, _, _, hp => by
    rw [pathsBelow] at hp
    cases hp
  | (name, c) :: l, path, p, h, hp => by
    rw [madeBelow, Bool.and_eq_true] at h
    rw [pathsBelow] at hp
    rcases List.mem_append.mp hp with hp | hp
    · exact prefix_childPath.trans (prefix_of_mem_paths h.1 hp)
    · exact prefix_of_mem_pathsBelow h.2 hp

end

end Node

/-! ## What an application calls -/

/-- The end of `dslink_node_add_child`: the node is put under its name, and who lists the parent is told. -/
def addChild (child p : Node) : Node := .mk p.data (p.children ++ [(child.data.name, child)])

/-- The node that `dslink_node_remove` takes out. -/
def dropChild (name : CString) (p : Node) : Node := .mk p.data (AssocMap.eraseIn name p.children)

/-- The metadata after `dslink_node_set_meta`; a map is made for a node that has none. -/
def newMeta (name : CString) (value : Option Json) (metaData : Option (AssocMap CString Json)) : AssocMap CString Json :=
  let m := metaData.getD .empty
  value.elim (m.erase name) (m.set name)

def NodeData.withMeta (metaData : AssocMap CString Json) (data : NodeData) : NodeData :=
  { data with metaData := some metaData }

/-- The node with other data. -/
def mapData (f : NodeData → NodeData) (node : Node) : Node := .mk (f node.data) node.children

namespace State

/-- `dslink_node_add_child` for a node that was prepared: it may have metadata, and nodes below it. -/
def nodeAdd (σ : State) (parent : List CString) (child : Node) : Option State := do
  let p ← σ.superRoot.find parent
  -- the assertion, and what `dslink_node_create` gave the node
  if (p.child child.data.name).isSome || !child.made (childPath p.data.path child.data.name) child.data.name then none
  else
    let σ := { σ with superRoot := σ.superRoot.modifyAt (addChild child) parent }
    pure (σ.sendListed p.data.path (childRow child.data))

/-- `dslink_node_remove`; the root of the tree has no parent and stays. -/
def nodeRemoveAt (σ : State) (names : List CString) : Option State :=
  match names.getLast? with
  | none => some σ
  | some name => σ.nodeRemove names.dropLast name

/-- `dslink_node_set_meta` without a link. -/
def nodeSetMetaUnlinked (σ : State) (names : List CString) (name : CString) (value : Option Json) : Option State := do
  let node ← σ.superRoot.find names
  if node.data.metaData.isNone && value.isNone then pure σ
  else pure (σ.modData names (.withMeta (newMeta name value node.data.metaData)))

end State

/-- What an application does at a node or below it. -/
inductive Edit
  | addChild (sub : List CString) (child : Node)
  | remove (sub : List CString)
  | setMeta (sub : List CString) (linked : Bool) (name : CString) (value : Option Json)

/-- An edit of the tree under the node that the names lead to. -/
def edit (names : List CString) (σ : State) : Edit → Option State
  | .addChild sub child => σ.nodeAdd (names ++ sub) child
  | .remove sub => σ.nodeRemoveAt (names ++ sub)
  | .setMeta sub linked name value =>
    if linked then σ.nodeSetMeta (names ++ sub) name value else σ.nodeSetMetaUnlinked (names ++ sub) name value

/-- One step of a responder whose application also prepares nodes. -/
def stepOrEdit (σ : State) : Event ⊕ List CString × Edit → Option State
  | .inl e => step σ e
  | .inr (names, e) => edit names σ e

section

variable {σ σ' : State} {names parent : List CString} {name profile : CString} {value : Option Json} {child : Node}

/-- A node that is added as it was created is the special case with nothing prepared. -/
theorem nodeAdd_created {p : Node} {onInvocation onValueSet : Bool} (hp : σ.superRoot.find parent = some p) :
    σ.nodeAddChild parent name profile onInvocation onValueSet = σ.nodeAdd parent
      (.mk ⟨childPath p.data.path name, name, profile, none, none, none, onInvocation, onValueSet⟩ []) := by
  have hmade : Node.made (childPath p.data.path name) name
      (.mk ⟨childPath p.data.path name, name, profile, none, none, none, onInvocation, onValueSet⟩ []) = true :=
    Node.made_iff.mpr ⟨rfl, rfl, List.nodup_nil, fun e he => (by cases he)⟩
  simp only [State.nodeAddChild, State.nodeAdd, hp, Option.bind_eq_bind, Option.bind_some, Node.data_mk, hmade,
    Bool.not_true, Bool.or_false]
  rfl

end

/-! ## What stays -/

/-- The tree, who lists what, and what was sent. -/
def State.listing (σ : State) : Node × AssocMap CString ListSub × List Message := (σ.superRoot, σ.listSubs, σ.sent)

section

variable {σ σ' : State} {p q : CString}

/-- An entry that may be missing. -/
theorem elim_keeps {α : Type} {R : State → Prop} {o : Option α} {f : α → Option State} (h0 : R σ)
    (hf : ∀ a, o = some a → ∀ σ', f a = some σ' → R σ') (h : o.elim (some σ) f = some σ') : R σ' := by
  cases ho : o with
  | none =>
    rw [ho] at h
    cases h
    exact h0
  | some a =>
    rw [ho] at h
    exact hf a ho σ' h

theorem decrefPath_listing {ref : Nat} (h : σ.decrefPath ref = some σ') : σ'.listing = σ.listing := by
  obtain ⟨_, -, rfl⟩ := Option.map_eq_some_iff.mp h
  rfl

theorem removePathSub_listing (h : σ.removePathSub p = some σ') : σ'.listing = σ.listing := by
  apply elim_keeps (R := fun τ => τ.listing = σ.listing) rfl ?_ h
  intro _ _ _ h
  have h1 := decrefPath_listing h
  exact h1

theorem removeSidSub_listing {sid : Nat} (h : σ.removeSidSub sid = some σ') : σ'.listing = σ.listing := by
  apply elim_keeps (R := fun τ => τ.listing = σ.listing) rfl ?_ h
  intro _ _ _ h
  have h1 := decrefPath_listing h
  exact h1

theorem subscribe_listing {sid : Nat} (h : σ.subscribe p sid = some σ') : σ'.listing = σ.listing := by
  simp only [State.subscribe, State.setPathSub, State.setSidSub, Option.bind_eq_bind, Option.bind_eq_some_iff] at h
  obtain ⟨υ, ⟨τ, hτ, h1⟩, φ, hφ, h2⟩ := h
  cases h1
  cases h2
  have hτ : τ.listing = σ.listing := by
    apply elim_keeps (R := fun τ => τ.listing = σ.listing) ?_ ?_ hτ
    · rfl
    · intro _ _ _ h
      have h1 := decrefPath_listing h
      exact h1
  have hφ : φ.listing = τ.listing := by
    apply elim_keeps (R := fun φ => φ.listing = τ.listing) ?_ ?_ hφ
    · rfl
    · intro _ _ _ h
      have h1 := decrefPath_listing h
      exact h1
  exact hφ.trans hτ

theorem freeStream_listing {stream : Stream} (h : σ.freeStream stream = some σ') : σ'.listing = σ.listing := by
  unfold State.freeStream at h
  split at h
  · cases h
    rfl
  · obtain ⟨_, -, rfl⟩ := Option.map_eq_some_iff.mp h
    rfl

theorem setStream_listing {rid : Nat} {stream : Stream} (h : σ.setStream rid stream = some σ') :
    σ'.listing = σ.listing := by
  obtain ⟨g, rfl, -⟩ := setStream_cases h
  rfl

theorem removeStream_listing {rid : Nat} (h : σ.removeStream rid = some σ') : σ'.listing = σ.listing := by
  apply elim_keeps (R := fun τ => τ.listing = σ.listing) rfl ?_ h
  intro _ _ _ h
  have h1 := freeStream_listing h
  exact h1

/-- Only these paths may be listed no more. -/
structure Unlisted (gone : List CString) (σ σ' : State) : Prop where
  root : σ'.superRoot = σ.superRoot
  sent : σ'.sent = σ.sent
  keeps : ∀ q, q ∉ gone → σ'.listSubs.get q = σ.listSubs.get q
  fewer : ∀ q sub, σ'.listSubs.get q = some sub → σ.listSubs.get q = some sub

theorem Unlisted.of_listing {gone : List CString} (h : σ'.listing = σ.listing) : Unlisted gone σ σ' := by
  simp only [State.listing, Prod.mk.injEq] at h
  obtain ⟨h1, h2, h3⟩ := h
  exact ⟨h1, h3, fun q _ => by rw [h2], fun q sub hq => by rwa [h2] at hq⟩

theorem Unlisted.trans {gone : List CString} {τ : State} (h : Unlisted gone σ τ) (h' : Unlisted gone τ σ') :
    Unlisted gone σ σ' where
  root := h'.root.trans h.root
  sent := h'.sent.trans h.sent
  keeps := fun q hq => (h'.keeps q hq).trans (h.keeps q hq)
  fewer := fun q sub hq => h.fewer q sub (h'.fewer q sub hq)

theorem Unlisted.mono {gone gone' : List CString} (h : Unlisted gone σ σ') (hg : gone ⊆ gone') : Unlisted gone' σ σ' :=
  ⟨h.root, h.sent, fun q hq => h.keeps q (fun hm => hq (hg hm)), h.fewer⟩

theorem removeListSub_unlisted (h : σ.removeListSub p = some σ') : Unlisted [p] σ σ' := by
  apply elim_keeps (R := Unlisted [p] σ) (.of_listing rfl) ?_ h
  intro sub _ τ hτ
  obtain ⟨_, -, rfl⟩ := Option.map_eq_some_iff.mp hτ
  refine ⟨rfl, rfl, fun q hq => AssocMap.get_erase_ne (fun he => hq (List.mem_singleton.mpr he)), fun q s hq => ?_⟩
  exact (AssocMap.get_erase_eq_some.mp hq).2

/-- Only the path of the node that goes is listed no more. -/
theorem dropPath_unlisted (h : σ.dropPath p = some σ') : Unlisted [p] σ σ' := by
  simp only [State.dropPath, Option.bind_eq_bind, Option.bind_eq_some_iff] at h
  obtain ⟨τ, hτ, sids, -, υ, hυ, h⟩ := h
  have hυ : υ.listing = σ.listing := by
    have hτ := removePathSub_listing hτ
    apply elim_keeps (R := fun υ => υ.listing = σ.listing) hτ ?_ hυ
    intro _ _ _ h
    exact (removeSidSub_listing h).trans hτ
  apply elim_keeps (R := Unlisted [p] σ) (.of_listing hυ) ?_ h
  intro sub _ φ hφ
  obtain ⟨χ, hχ, hφ⟩ := Option.bind_eq_some_iff.mp hφ
  have hlist := removeListSub_unlisted hχ
  have hstream := removeStream_listing hφ
  exact ((Unlisted.of_listing hυ).trans hlist).trans (.of_listing hstream)

theorem dropPaths_unlisted {ps : List CString} (h : ps.foldlM State.dropPath σ = some σ') : Unlisted ps σ σ' := by
  apply foldlM_invariant (Unlisted ps σ) ?_ h (.of_listing rfl)
  intro τ p hp τ' hi hs
  have hsub : [p] ⊆ ps := List.cons_subset.mpr ⟨hp, List.nil_subset ps⟩
  exact hi.trans ((dropPath_unlisted hs).mono hsub)

end

/-! ## What the calls do -/

/-- What goes to whoever lists a path. -/
def State.told (σ : State) (path : CString) (row : Json) : List Message :=
  (σ.listSubs.get path).elim [] (fun sub => [.stream (some (.integer sub.rid)) [row]])

section

variable {σ σ' : State} {p node child : Node} {names parent : List CString} {path name : CString} {value : Option Json}

theorem sendListed_spec (σ : State) (path : CString) (row : Json) :
    (σ.sendListed path row).superRoot = σ.superRoot ∧ (σ.sendListed path row).listSubs = σ.listSubs ∧
    (σ.sendListed path row).sent = σ.sent ++ σ.told path row := by
  unfold State.sendListed State.told
  cases σ.listSubs.get path with
  | none => exact ⟨rfl, rfl, (List.append_nil _).symm⟩
  | some sub => exact ⟨rfl, rfl, rfl⟩

theorem nodeAdd_spec (h : σ.nodeAdd parent child = some σ') :
    ∃ p, σ.superRoot.find parent = some p ∧ p.child child.data.name = none ∧
      child.made (childPath p.data.path child.data.name) child.data.name = true ∧
      σ'.superRoot = σ.superRoot.modifyAt (addChild child) parent ∧ σ'.listSubs = σ.listSubs ∧
      σ'.sent = σ.sent ++ σ.told p.data.path (childRow child.data) := by
  obtain ⟨p, hp, h⟩ := Option.bind_eq_some_iff.mp h
  split at h
  · cases h
  · rename_i hno
    rw [Bool.or_eq_true, not_or, Option.not_isSome_iff_eq_none, Bool.not_eq_true', Bool.not_eq_false] at hno
    cases h
    exact ⟨p, hp, hno.1, hno.2, sendListed_spec { σ with superRoot := _ } _ _⟩

theorem nodeRemove_spec (h : σ.nodeRemove parent name = some σ') :
    ∃ p node, σ.superRoot.find parent = some p ∧ p.child name = some node ∧
      σ'.superRoot = σ.superRoot.modifyAt (dropChild name) parent ∧
      (∀ q, q ∉ node.paths → σ'.listSubs.get q = σ.listSubs.get q) ∧
      (∀ q sub, σ'.listSubs.get q = some sub → σ.listSubs.get q = some sub) ∧
      σ'.sent = σ.sent ++ σ.told p.data.path (removeRow node.data.name) := by
  obtain ⟨p, hp, h⟩ := Option.bind_eq_some_iff.mp h
  obtain ⟨node, hnode, h⟩ := Option.bind_eq_some_iff.mp h
  have hdrop := dropPaths_unlisted h
  obtain ⟨h4, h5, h6⟩ := sendListed_spec { σ with superRoot := σ.superRoot.modifyAt (dropChild name) parent }
    p.data.path (removeRow node.data.name)
  refine ⟨p, node, hp, hnode, hdrop.root.trans h4, fun q hq => ?_, fun q sub hq => ?_, hdrop.sent.trans h6⟩
  · exact (hdrop.keeps q hq).trans (congrArg (fun m => AssocMap.get m q) h5)
  · exact (congrArg (fun m => AssocMap.get m q) h5).symm.trans (hdrop.fewer q sub hq)

theorem nodeRemoveAt_concat : σ.nodeRemoveAt (parent ++ [name]) = σ.nodeRemove parent name := by
  unfold State.nodeRemoveAt
  rw [List.getLast?_concat, List.dropLast_concat]

theorem nodeSetMeta_spec (h : σ.nodeSetMeta names name value = some σ') :
    ∃ node, σ.superRoot.find names = some node ∧
      (node.data.metaData = none ∧ value = none ∧ σ' = σ ∨
        ¬ (node.data.metaData = none ∧ value = none) ∧
        σ'.superRoot = σ.superRoot.modifyAt (mapData (.withMeta (newMeta name value node.data.metaData))) names ∧ σ'.listSubs = σ.listSubs ∧
        σ'.sent = σ.sent ++ σ.told node.data.path (metaRow name value)) := by
  obtain ⟨node, hnode, h⟩ := Option.bind_eq_some_iff.mp h
  refine ⟨node, hnode, ?_⟩
  split at h
  · rename_i hnone
    rw [Bool.and_eq_true, Option.isNone_iff_eq_none, Option.isNone_iff_eq_none] at hnone
    cases h
    exact .inl ⟨hnone.1, hnone.2, rfl⟩
  · rename_i hsome
    rw [Bool.and_eq_true, Option.isNone_iff_eq_none, Option.isNone_iff_eq_none] at hsome
    cases h
    exact .inr ⟨hsome, sendListed_spec (σ.modData names _) _ _⟩

theorem nodeSetMetaUnlinked_spec (h : σ.nodeSetMetaUnlinked names name value = some σ') :
    ∃ node, σ.superRoot.find names = some node ∧
      (node.data.metaData = none ∧ value = none ∧ σ' = σ ∨
        σ'.superRoot = σ.superRoot.modifyAt (mapData (.withMeta (newMeta name value node.data.metaData))) names ∧
        σ'.listSubs = σ.listSubs ∧ σ'.sent = σ.sent) := by
  obtain ⟨node, hnode, h⟩ := Option.bind_eq_some_iff.mp h
  refine ⟨node, hnode, ?_⟩
  split at h
  · rename_i hnone
    rw [Bool.and_eq_true, Option.isNone_iff_eq_none, Option.isNone_iff_eq_none] at hnone
    cases h
    exact .inl ⟨hnone.1, hnone.2, rfl⟩
  · cases h
    exact .inr ⟨rfl, rfl, rfl⟩

/-! ## The tree is always as it is made -/

/-- The whole tree, whose root is called `/`. -/
def State.Made (σ : State) : Prop := σ.superRoot.made [] [slash] = true

theorem State.Made.find (h : σ.Made) (hn : σ.superRoot.find names = some node) :
    ∃ name, node.made (Node.pathAt [] names) name = true := Node.made_find h hn

theorem State.Made.congr (h : σ.Made) (hroot : σ'.superRoot = σ.superRoot) : σ'.Made := by
  unfold State.Made
  rw [hroot]
  exact h

theorem State.Made.of_listing (h : σ.Made) (hl : σ'.listing = σ.listing) : σ'.Made := h.congr (congrArg Prod.fst hl)

theorem made_addChild {path name : CString} (hp : p.made path name = true) (hno : p.child child.data.name = none)
    (hc : child.made (childPath path child.data.name) child.data.name = true) :
    (addChild child p).made path name = true := by
  obtain ⟨h1, h2, h3, h4⟩ := Node.made_iff.mp hp
  apply Node.made_iff.mpr
  refine ⟨h1, h2, ?_, ?_⟩
  · show ((p.children ++ [(child.data.name, child)]).map Prod.fst).Nodup
    rw [List.map_append]
    apply List.nodup_append.mpr
    refine ⟨h3, List.nodup_singleton _, ?_⟩
    rintro key hkey key' hkey' rfl
    obtain rfl := List.mem_singleton.mp hkey'
    obtain ⟨e, he, hname⟩ := List.mem_map.mp hkey
    have hsome := (AssocMap.lookupIn_eq_some h3).mpr he
    rw [hname] at hsome
    exact absurd (hno.symm.trans hsome) (by simp)
  · intro e he
    rcases List.mem_append.mp he with he | he
    · exact h4 e he
    · obtain rfl := List.mem_singleton.mp he
      exact hc

theorem made_dropChild {path name key : CString} (hp : p.made path name = true) :
    (dropChild key p).made path name = true := by
  obtain ⟨h1, h2, h3, h4⟩ := Node.made_iff.mp hp
  exact Node.made_iff.mpr ⟨h1, h2, AssocMap.nodup_eraseIn h3, fun e he => h4 e (AssocMap.mem_eraseIn he)⟩

theorem made_mapData {path name : CString} {f : NodeData → NodeData} (hp : p.made path name = true)
    (hf : (f p.data).path = p.data.path ∧ (f p.data).name = p.data.name) : (mapData f p).made path name = true := by
  obtain ⟨h1, h2, h3, h4⟩ := Node.made_iff.mp hp
  exact Node.made_iff.mpr ⟨hf.1.trans h1, hf.2.trans h2, h3, h4⟩

theorem nodeAdd_made (hσ : σ.Made) (h : σ.nodeAdd parent child = some σ') : σ'.Made := by
  obtain ⟨p, hp, hno, hc, hroot, -⟩ := nodeAdd_spec h
  unfold State.Made
  rw [hroot]
  apply Node.made_modifyAt hσ
  intro node name' hn hmade
  obtain rfl := Option.some.inj (hp.symm.trans hn)
  rw [Node.made_data_path hmade] at hc
  exact made_addChild hmade hno hc

theorem nodeRemove_made (hσ : σ.Made) (h : σ.nodeRemove parent name = some σ') : σ'.Made := by
  obtain ⟨p, node, hp, hnode, hroot, -⟩ := nodeRemove_spec h
  unfold State.Made
  rw [hroot]
  apply Node.made_modifyAt hσ
  intro node name' _ hmade
  exact made_dropChild hmade

theorem made_withMeta {m : AssocMap CString Json} (hσ : σ.Made)
    (hroot : σ'.superRoot = σ.superRoot.modifyAt (mapData (.withMeta m)) names) : σ'.Made := by
  unfold State.Made
  rw [hroot]
  apply Node.made_modifyAt hσ
  intro node name' _ hmade
  exact made_mapData hmade ⟨rfl, rfl⟩

theorem nodeSetMeta_made (hσ : σ.Made) (h : σ.nodeSetMeta names name value = some σ') : σ'.Made := by
  obtain ⟨node, -, ⟨-, -, rfl⟩ | ⟨-, hroot, -⟩⟩ := nodeSetMeta_spec h
  · exact hσ
  · exact made_withMeta hσ hroot

theorem nodeSetMetaUnlinked_made (hσ : σ.Made) (h : σ.nodeSetMetaUnlinked names name value = some σ') : σ'.Made := by
  obtain ⟨node, -, ⟨-, -, rfl⟩ | ⟨hroot, -⟩⟩ := nodeSetMetaUnlinked_spec h
  · exact hσ
  · exact made_withMeta hσ hroot

theorem edit_made {e : Edit} (hσ : σ.Made) (h : edit names σ e = some σ') : σ'.Made := by
  cases e with
  | addChild sub child => exact nodeAdd_made hσ h
  | remove sub =>
    unfold edit State.nodeRemoveAt at h
    dsimp only at h
    split at h
    · cases h
      exact hσ
    · exact nodeRemove_made hσ h
  | setMeta sub linked name value =>
    unfold edit at h
    dsimp only at h
    split at h
    · exact nodeSetMeta_made hσ h
    · exact nodeSetMetaUnlinked_made hσ h

theorem sendVal_root (σ : State) (node : NodeData) (sid : Nat) : (σ.sendVal node sid).superRoot = σ.superRoot := by
  unfold State.sendVal
  cases node.valueTimestamp <;> rfl

theorem nodeUpdateValue_made {ts : CString} (hσ : σ.Made) (h : σ.nodeUpdateValue names value ts = some σ') :
    σ'.Made := by
  obtain ⟨node, hnode, h⟩ := Option.bind_eq_some_iff.mp h
  have hmod : (σ.modData names (fun _ => { node.data with value := value, valueTimestamp := some ts })).Made := by
    apply Node.made_modifyAt hσ
    intro node' name' hn hmade
    obtain rfl := Option.some.inj (hnode.symm.trans hn)
    obtain ⟨h1, h2, h3, h4⟩ := Node.made_iff.mp hmade
    exact Node.made_iff.mpr ⟨h1, h2, h3, h4⟩
  cases h
  cases hsub : (σ.modData names (fun _ => { node.data with value := value, valueTimestamp := some ts })).valuePathSubs.get
      node.data.path with
  | none => simpa only [hsub, Option.elim_none] using hmod
  | some sub =>
    simp only [Option.elim_some]
    exact hmod.congr (sendVal_root _ _ _)

theorem requestSet_made {ts : CString} (hσ : σ.Made) (h : σ.requestSet path value ts = some σ') : σ'.Made := by
  unfold State.requestSet at h
  split at h
  · cases h
    exact hσ
  · simp only [Option.bind_eq_bind, Option.bind_eq_some_iff] at h
    obtain ⟨node, -, m, -, h⟩ := h
    split at h
    · cases h
      exact hσ
    · exact nodeUpdateValue_made hσ h

theorem responseList_spec {rid : Option Json} (h : σ.responseList rid node = some σ') :
    σ'.superRoot = σ.superRoot ∧ σ'.sent = σ.sent ++ [.stream rid (listRows node)] ∧
    ∃ key, σ'.listSubs = σ.listSubs.set node.data.path ⟨key, u32 rid⟩ := by
  simp only [State.responseList, Option.bind_eq_bind, Option.bind_eq_some_iff] at h
  obtain ⟨τ, hτ, υ, hυ, h⟩ := h
  cases h
  obtain ⟨g, rfl, -⟩ := setStream_cases hτ
  obtain ⟨g', rfl, -⟩ := setListSub_cases hυ
  exact ⟨rfl, rfl, _, rfl⟩

theorem subRound_made {item : CString × Nat} (hσ : σ.Made) (h : σ.subRound item = some σ') : σ'.Made := by
  obtain ⟨τ, hτ, rfl⟩ := Option.map_eq_some_iff.mp h
  have hmade := hσ.of_listing (subscribe_listing hτ)
  cases τ.superRoot.getNode item.1 with
  | none => exact hmade
  | some node => exact hmade.congr (sendVal_root _ _ _)

theorem unsubRound_made {v : Json} (hσ : σ.Made) (h : σ.unsubRound v = some σ') : σ'.Made := by
  apply elim_keeps (R := State.Made) hσ ?_ h
  intro ref _ σ' h
  obtain ⟨τ, hτ, h⟩ := Option.bind_eq_some_iff.mp h
  obtain ⟨q, -, h⟩ := Option.bind_eq_some_iff.mp h
  have hl := decrefPath_listing hτ
  have hmade := hσ.of_listing hl
  exact hmade.of_listing (removePathSub_listing h)

theorem requestInvoke_made {rid : Option Json} {kept : Bool} (hσ : σ.Made)
    (h : σ.requestInvoke path rid kept = some σ') : σ'.Made := by
  unfold State.requestInvoke at h
  split at h
  · cases h
    exact hσ
  · split at h
    · split at h
      · have hl := setStream_listing h
        exact hσ.of_listing hl
      · have hl := freeStream_listing h
        exact hσ.of_listing hl
    · cases h
      exact hσ

theorem requestClose_made {rid : Option Json} (hσ : σ.Made) (h : σ.requestClose rid = some σ') : σ'.Made := by
  apply elim_keeps (R := State.Made) hσ ?_ h
  intro stream _ σ' h
  simp only [Option.bind_eq_bind, Option.bind_eq_some_iff] at h
  obtain ⟨p, -, τ, hτ, h⟩ := h
  apply State.Made.of_listing ?_ (freeStream_listing h)
  unfold State.closeListSub at hτ
  split at hτ
  · exact hσ.congr (removeListSub_unlisted hτ).root
  · cases hτ
    exact hσ

theorem requestHandle_made {ts : CString} {kept : Bool} {req : Request} (hσ : σ.Made)
    (h : σ.requestHandle ts kept req = some σ') : σ'.Made := by
  cases req with
  | list path rid =>
    obtain ⟨path, -, h⟩ := Option.bind_eq_some_iff.mp h
    apply elim_keeps (R := State.Made) hσ ?_ h
    exact fun node _ _ h => hσ.congr (responseList_spec h).1
  | subscribe paths rid =>
    apply foldlM_invariant State.Made ?_ h
    · exact hσ
    · exact fun _ _ _ _ hi hs => subRound_made hi hs
  | unsubscribe sids rid =>
    obtain ⟨τ, hτ, rfl⟩ := Option.map_eq_some_iff.mp h
    have hmade := foldlM_invariant State.Made (fun _ _ _ _ hi hs => unsubRound_made hi hs) hτ hσ
    exact hmade
  | invoke path rid =>
    obtain ⟨path, -, h⟩ := Option.bind_eq_some_iff.mp h
    exact requestInvoke_made hσ h
  | set path value =>
    obtain ⟨path, -, h⟩ := Option.bind_eq_some_iff.mp h
    exact requestSet_made hσ h
  | close rid => exact requestClose_made hσ h

theorem step_made {e : Event} (hσ : σ.Made) (h : step σ e = some σ') : σ'.Made := by
  cases e with
  | request req ts kept =>
    apply elim_keeps (R := State.Made) hσ ?_ h
    exact fun _ _ _ h => requestHandle_made hσ h
  | addNode parent name profile b b' =>
    obtain ⟨p, hp⟩ : ∃ p, σ.superRoot.find parent = some p := by
      obtain ⟨p, hp, -⟩ := Option.bind_eq_some_iff.mp h
      exact ⟨p, hp⟩
    exact nodeAdd_made hσ ((nodeAdd_created hp).symm.trans h)
  | removeNode parent name => exact nodeRemove_made hσ h
  | setMeta names name value => exact nodeSetMeta_made hσ h
  | updateValue names value ts => exact nodeUpdateValue_made hσ h

/-- Whatever happens, the tree is as it is made. -/
theorem reach_made {ok : State → Event ⊕ List CString × Edit → Prop} (h : Reach stepOrEdit ok (· = init) σ) :
    σ.Made := by
  apply h.invariant State.Made
  · rintro _ rfl
    exact Node.made_iff.mpr ⟨rfl, rfl, List.nodup_nil, fun e he => (by cases he)⟩
  · rintro s (e | ⟨names, e⟩) s' hi - hs
    · exact step_made hi hs
    · exact edit_made hi hs

end

end DSLink.Responder
