import DSLink.Broker.Mediation
import DSLink.Broker.TreeLive

/-!
# `Broker.PermissionList` — one permission list is set or read

The two walks of `permission.c` that follow `get_permission`, with the action `getPermissions` of
`sys/permission_action.c`. Both skip the first character of the path after `get_permission`, which only looks at it
where the root has a list. Below a downstream node both make the virtual nodes that are missing on their way; the
one that reads does so as well.

## Contents
- `virtualNode`, `listAt`, `denotes`: the lists of a broker, and the one that a path stands for.
- `SetsOne`, `set_permission_list_exact`.
- `getPermissionList`, `getPermissions`, `ReadsOnly`, `get_permission_list_exact`.
-/

namespace DSLink

/-! ## The lists of a broker -/

/-- The virtual node at `names` below a virtual node. -/
def virtualNode : List CString → VirtualDownstreamNode → Option VirtualDownstreamNode
  | [], node => some node
  | name :: names, node => (AssocMap.lookupIn name node.childrenNode).bind (virtualNode names)

/-- A place of a list: a node, and the names from there down to a virtual node. -/
abbrev Place := NodeRef × List CString

namespace Site

/-- The virtual node at `names` below the downstream node `d`. -/
def virtualAt (σ : Site) (d : DownId) : List CString → Option VirtualDownstreamNode
  | [] => none
  | name :: names => (AssocMap.lookupIn name (σ.childrenPermissions d)).bind (virtualNode names)

/-- The list at a place. A virtual node that is not there has none. -/
def listAt (σ : Site) : Place → Option (List PermissionPair)
  | (node, []) => σ.permissionList node
  | (.downstream d, name :: names) => (σ.virtualAt d (name :: names)).bind VirtualDownstreamNode.permissionList
  | (.regular _, _ :: _) => none

/-- Where a walk along `names` ends: below a downstream node all names are names of virtual nodes. -/
def placeFrom (σ : Site) : List CString → NodeRef → Option (Option Place)
  | [], node => some (some (node, []))
  | name :: names, .downstream d => some (some (.downstream d, name :: names))
  | name :: names, .regular n => do
    let regular ← σ.base.node.get n
    match regular.children.get name with
    | none => some none
    | some child => placeFrom σ names child

/-- The place that a path stands for; its first character is the slash of the root. -/
def denotes (σ : Site) (path : CString) : Option (Option Place) :=
  σ.placeFrom (pathNames path.tail) (.regular σ.base.root)

end Site

/-! ## `set_permission_list` -/

variable {σ σ' : Site} {L : DownId} {path : CString} {names : List CString} {node : NodeRef}
  {permissions : Option (List PermissionPair)} {json : Json} {ok : Bool}

theorem virtualNode_init_list (names : List CString) :
    (virtualNode names .init).bind VirtualDownstreamNode.permissionList = none := by
  cases names <;> rfl

/-- Setting the list of a virtual node touches no other one. -/
theorem virtualNode_set (names names' : List CString) (node : VirtualDownstreamNode) :
    (virtualNode names (setVirtualPermissionList permissions names' node)).bind VirtualDownstreamNode.permissionList
      = if names = names' then permissions
        else (virtualNode names node).bind VirtualDownstreamNode.permissionList := by
  induction names' generalizing names node with
  | nil => cases names <;> rfl
  | cons name' names' ih =>
    cases names with
    | nil => rfl
    | cons name names =>
      show Option.bind (Option.bind (AssocMap.lookupIn name (AssocMap.setIn name' _ node.childrenNode)) _) _ = _
      rw [AssocMap.lookupIn_setIn]
      by_cases hname : name = name'
      · subst hname
        rw [if_pos rfl, Option.bind_some, ih]
        simp only [List.cons.injEq, true_and]
        cases hchild : AssocMap.lookupIn name node.childrenNode with
        | none => simp only [Option.getD_none, virtualNode, hchild, virtualNode_init_list, Option.bind_none]
        | some child => simp only [Option.getD_some, virtualNode, hchild, Option.bind_some]
      · rw [if_neg hname, if_neg (fun he => hname (List.cons.inj he).1)]
        rfl

namespace Site

/-- What `set_node_permission_list` did: the list at the place is the new one, and all others are as before. -/
structure ListSet (σ σ' : Site) (place : Place) (permissions : Option (List PermissionPair)) : Prop where
  set : σ'.listAt place = permissions
  others : ∀ p, p ≠ place → σ'.listAt p = σ.listAt p

theorem ListSet.of_if (place : Place)
    (h : ∀ p, σ'.listAt p = if p = place then permissions else σ.listAt p) : σ.ListSet σ' place permissions :=
  ⟨by rw [h, if_pos rfl], fun p hp => by rw [h, if_neg hp]⟩

theorem listSet_node (σ : Site) (node : NodeRef) (permissions : Option (List PermissionPair)) :
    σ.ListSet { σ with permissionList := Function.update σ.permissionList node permissions } (node, []) permissions := by
  apply ListSet.of_if
  rintro ⟨other, _ | ⟨name, names⟩⟩
  · show Function.update σ.permissionList node permissions other = _
    by_cases h : other = node
    · rw [h, Function.update_self, if_pos rfl]
    · rw [Function.update_of_ne h, if_neg (by simpa using h)]
      rfl
  · rw [if_neg (by simp)]
    cases other <;> rfl

theorem listSet_virtual (d : DownId) (name : CString) (names : List CString)
    {children : List (CString × VirtualDownstreamNode)}
    (h : children = AssocMap.setIn name (setVirtualPermissionList permissions names
      ((AssocMap.lookupIn name (σ.childrenPermissions d)).getD .init)) (σ.childrenPermissions d)) :
    σ.ListSet { σ with childrenPermissions := Function.update σ.childrenPermissions d children }
      (.downstream d, name :: names) permissions := by
  subst h
  apply ListSet.of_if
  rintro ⟨_ | e, _ | ⟨name', names'⟩⟩
  · rfl
  · rfl
  · rw [if_neg (by simp)]
    rfl
  · show (Option.bind (AssocMap.lookupIn name' (Function.update σ.childrenPermissions d _ e)) _).bind _ = _
    by_cases hde : e = d
    · subst hde
      rw [Function.update_self, AssocMap.lookupIn_setIn]
      by_cases hname : name' = name
      · subst hname
        rw [if_pos rfl, Option.bind_some, virtualNode_set]
        simp only [Prod.mk.injEq, List.cons.injEq, true_and, listAt, virtualAt]
        cases hchild : AssocMap.lookupIn name' (σ.childrenPermissions e) with
        | none => simp only [Option.getD_none, virtualNode_init_list, Option.bind_none]
        | some child => simp only [Option.getD_some, Option.bind_some]
      · rw [if_neg hname, if_neg (by simp [hname])]
        rfl
    · rw [Function.update_of_ne hde, if_neg (by simp [hde])]
      rfl

/-- The walk ends at the place that the names stand for, and returns 0 if there is one. -/
theorem setNodePermissionList_spec (h : σ.setNodePermissionList permissions names node = some (σ', ok)) :
    (ok = true → ∃ place, σ.placeFrom names node = some (some place) ∧ σ.ListSet σ' place permissions) ∧
      (ok = false → σ.placeFrom names node = some none ∧ σ' = σ) := by
  induction names generalizing node with
  | nil =>
    cases h
    exact ⟨fun _ => ⟨_, rfl, listSet_node σ node permissions⟩, fun h => by cases h⟩
  | cons name names ih =>
    cases node with
    | downstream d =>
      cases h
      exact ⟨fun _ => ⟨_, rfl, listSet_virtual d name names rfl⟩, fun h => by cases h⟩
    | regular n =>
      rw [setNodePermissionList] at h
      obtain ⟨regular, hregular, h⟩ := Option.bind_eq_some_iff.mp h
      simp only [placeFrom, hregular, Option.bind_eq_bind, Option.bind_some]
      cases hchild : regular.children.get name with
      | none =>
        rw [hchild] at h
        obtain ⟨rfl, rfl⟩ := Prod.mk.inj (Option.some.inj h)
        exact ⟨(fun h => by cases h), fun _ => ⟨rfl, rfl⟩⟩
      | some child =>
        rw [hchild] at h
        exact ih h

/-- The walk ends on every tree whose nodes are there. -/
theorem setNodePermissionList_isSome (hlive : σ.base.ChildrenLive) (names : List CString) {node : NodeRef}
    (hnode : ∀ n, node = .regular n → (σ.base.node.get n).isSome) :
    (σ.setNodePermissionList permissions names node).isSome := by
  induction names generalizing node with
  | nil => rfl
  | cons name names ih =>
    cases node with
    | downstream d => rfl
    | regular n =>
      obtain ⟨regular, hregular⟩ := Option.isSome_iff_exists.mp (hnode n rfl)
      simp only [setNodePermissionList, hregular, Option.bind_eq_bind, Option.bind_some]
      cases hchild : regular.children.get name with
      | none => rfl
      | some child =>
        apply ih
        rintro c rfl
        exact hlive.child n regular name c hregular hchild

/-- The call stays within the path; a list is set below a path from the root, for a link with config permission, at
    the one place that the path stands for; and a call that fails sets none. -/
structure SetsOne (σ : Site) (path : CString) (L : DownId) (json : Json) : Prop where
  inBounds : (σ.setPermissionList path L json).isSome
  success : ∀ σ', σ.setPermissionList path L json = some (σ', true) → path.head? = some slash ∧
    σ.getPermission path L = some .config ∧
    ∃ place, σ.denotes path = some (some place) ∧ σ.ListSet σ' place (permissionListLoad json)
  failure : ∀ σ', σ.setPermissionList path L json = some (σ', false) → ∀ p, σ'.listAt p = σ.listAt p

/-- The condition: the first character of the path is looked at or is a slash, or what stands behind it is the path of
    no node. -/
def FirstChecked (σ : Site) (path : CString) (json : Json) : Prop :=
  (∀ elems, json ≠ .array elems) ∨ (σ.permissionList (.regular σ.base.root)).isSome ∨ path.head? = some slash ∨
    (path ≠ [] ∧ σ.denotes path = some none)

/-- `set_permission_list` behind the check of the permission. -/
theorem setPermissionList_config {c : UInt8} (elems : List Json) (hconfig : σ.getPermission (c :: path) L = some .config) :
    σ.setPermissionList (c :: path) L (.array elems) =
      σ.setNodePermissionList (permissionListLoad (.array elems)) (pathNames path) (.regular σ.base.root) := by
  simp only [setPermissionList, hconfig, Option.bind_eq_bind, Option.bind_some, ne_eq, not_true_eq_false, if_false,
    List.tail?]

theorem setPermissionList_refused {elems : List Json} {level : PermissionLevel}
    (hlevel : σ.getPermission path L = some level) (hne : level ≠ .config) :
    σ.setPermissionList path L (.array elems) = some (σ, false) := by
  simp only [setPermissionList, hlevel, Option.bind_eq_bind, Option.bind_some, if_pos hne]

theorem SetsOne.refused (h : σ.setPermissionList path L json = some (σ, false)) : σ.SetsOne path L json where
  inBounds := by rw [h]; rfl
  success := fun σ' hs => by rw [h] at hs; cases hs
  failure := fun σ' hs p => by rw [h] at hs; cases hs; rfl

/-- Behind the check everything is as it should be but the first character. -/
theorem setsOne_config (hlive : σ.base.ChildrenLive) {elems : List Json} {c : UInt8}
    (hconfig : σ.getPermission (c :: path) L = some .config) :
    σ.SetsOne (c :: path) L (.array elems) ↔ c = slash ∨ σ.denotes (c :: path) = some none := by
  have hset := setPermissionList_config elems hconfig
  have hsome : (σ.setPermissionList (c :: path) L (.array elems)).isSome := by
    rw [hset]
    apply setNodePermissionList_isSome hlive
    rintro n ⟨⟩
    exact hlive.root
  obtain ⟨⟨σ', ok⟩, hrun⟩ := Option.isSome_iff_exists.mp hsome
  have hspec := setNodePermissionList_spec (hset.symm.trans hrun)
  constructor
  · intro h
    cases ok with
    | true => exact Or.inl (Option.some.inj (h.success σ' hrun).1)
    | false => exact Or.inr (hspec.2 rfl).1
  · intro h
    refine ⟨hsome, fun τ hτ => ?_, fun τ hτ p => ?_⟩
    · rw [hrun] at hτ
      cases hτ
      obtain ⟨place, hplace, hlists⟩ := hspec.1 rfl
      refine ⟨?_, hconfig, place, hplace, hlists⟩
      rcases h with rfl | hnone
      · rfl
      · rw [show σ.denotes (c :: path) = some (some place) from hplace] at hnone
        cases hnone
    · rw [hrun] at hτ
      cases hτ
      rw [(hspec.2 rfl).2]

theorem setsOne_iff (hlive : σ.base.ChildrenLive) (path : CString) (L : DownId) (json : Json) :
    σ.SetsOne path L json ↔ σ.FirstChecked path json := by
  have hother : (∀ elems, json ≠ .array elems) → σ.setPermissionList path L json = some (σ, false) := by
    intro h
    cases json with
    | array elems => exact absurd rfl (h elems)
    | _ => rfl
  by_cases hjson : ∀ elems, json ≠ .array elems
  · exact iff_of_true (.refused (hother hjson)) (Or.inl hjson)
  obtain ⟨elems, hjson⟩ := not_forall.mp hjson
  obtain rfl := not_not.mp hjson
  obtain ⟨level, hlevel⟩ := Option.isSome_iff_exists.mp (getPermission_isSome hlive path L)
  unfold FirstChecked
  cases hroot : σ.permissionList (.regular σ.base.root) with
  | some list =>
    refine iff_of_true ?_ (Or.inr (Or.inl rfl))
    by_cases hne : level = .config
    · subst hne
      -- with a list at the root only a path from the root gets through
      cases path with
      | nil => simp [getPermission, hroot] at hlevel
      | cons c path =>
        refine (setsOne_config hlive hlevel).mpr (Or.inl ?_)
        by_contra hc
        simp [getPermission, hroot, hc] at hlevel
    · exact .refused (setPermissionList_refused hlevel hne)
  | none =>
    obtain rfl : level = .config := by simpa [getPermission, hroot] using hlevel.symm
    cases path with
    | nil =>
      refine iff_of_false (fun h => ?_) (by simp)
      have := h.inBounds
      simp [setPermissionList, hlevel] at this
    | cons c path =>
      rw [setsOne_config hlive hlevel]
      simp

/-- **Setting permissions.** In every reachable state `set_permission_list` stays within its path and sets the list
    of the one node that the path stands for, exactly if the first character of the path is checked. -/
theorem set_permission_list_exact {cfg : Config} (hreach : Reach (Broker.step cfg) (Broker.RootStays cfg)
    (fun base => Broker.brokerInit = some base) σ.base) (path : CString) (L : DownId) (json : Json) :
    σ.SetsOne path L json ↔ σ.FirstChecked path json :=
  setsOne_iff (Broker.reach_treeLive hreach).toChildrenLive path L json

/-- A broker with the two links `r` and `x`, on which no node has a list. -/
def bareSite (base : Broker Json) : Site := { openSite base .read read_le_config with permissionList := fun _ => none }

theorem set_permission_list_link : ∃ σ : Site, Reach (Broker.step Broker.smallConfig) (Broker.RootStays Broker.smallConfig)
    (fun base => Broker.brokerInit = some base) σ.base ∧
      (σ.SetsOne (cstr "/downstream/x/a") 0 writeList ↔ σ.FirstChecked (cstr "/downstream/x/a") writeList) := by
  have hrun := Reach.of_guarded (Broker.step Broker.smallConfig) (Broker.RootStays Broker.smallConfig) Broker.brokerInit
    twoLinks (fun _ => true) (by decide)
  obtain ⟨base, hreach, -⟩ := hrun
  exact ⟨bareSite base, hreach, set_permission_list_exact hreach _ _ _⟩

/-- The list of the link `x` is set through a path that does not begin with a slash. -/
theorem set_permission_list_skips : ∃ σ : Site, Reach (Broker.step Broker.smallConfig) (Broker.RootStays Broker.smallConfig)
    (fun base => Broker.brokerInit = some base) σ.base ∧ ¬σ.SetsOne (cstr "?downstream/x") 0 writeList := by
  have hrun := Reach.of_guarded (Broker.step Broker.smallConfig) (Broker.RootStays Broker.smallConfig) Broker.brokerInit
    twoLinks (fun base => ((bareSite base).setPermissionList (cstr "?downstream/x") 0 writeList).any Prod.snd) (by decide)
  obtain ⟨base, hreach, hcheck⟩ := hrun
  obtain ⟨⟨σ', ok⟩, hset, rfl⟩ := (Option.any_eq_true _ _).mp hcheck
  exact ⟨bareSite base, hreach, fun h => absurd (h.success σ' hset).1 (by decide)⟩

end Site

/-! ## `get_permission_list` -/

/-- `get_virtual_permission_list`: the list that is saved, and the node with the virtual nodes that were missing. -/
def getVirtualPermissionList : List CString → VirtualDownstreamNode → Option Json × VirtualDownstreamNode
  | [], node => (permissionListSave node.permissionList, node)
  | name :: names, node =>
    let child := (AssocMap.lookupIn name node.childrenNode).getD .init
    let (json, child) := getVirtualPermissionList names child
    (json, .mk node.permissionList (AssocMap.setIn name child node.childrenNode) node.metadata)

namespace Site

/-- `get_node_permission_list`. The inner `none` is NULL. -/
def getNodePermissionList (σ : Site) : List CString → NodeRef → Option (Option Json × Site)
  | [], node => some (permissionListSave (σ.permissionList node), σ)
  | name :: names, .downstream d =>
    let child := (AssocMap.lookupIn name (σ.childrenPermissions d)).getD .init
    let (json, child) := getVirtualPermissionList names child
    let children := AssocMap.setIn name child (σ.childrenPermissions d)
    some (json, { σ with childrenPermissions := Function.update σ.childrenPermissions d children })
  | name :: names, .regular n => do
    let regular ← σ.base.node.get n
    match regular.children.get name with
    | none => some (none, σ)
    | some child => getNodePermissionList σ names child

/-- `get_permission_list`. Behind the end of an empty path there is nothing to read. -/
def getPermissionList (σ : Site) (path : CString) (reqLink : DownId) : Option (Option Json × Site) := do
  let level ← σ.getPermission path reqLink
  if level < .read then some (none, σ)
  else
    let rest ← path.tail?
    σ.getNodePermissionList (pathNames rest) (.regular σ.base.root)

/-- What the action `getPermissions` sends. -/
inductive PermissionsReply
  | closed (error : CString)
  | row (permissions : Json)

/-- `get_permissions`. -/
def getPermissions (σ : Site) (link : DownId) (req : Json) (maxPermission : PermissionLevel) :
    Option (PermissionsReply × Site) :=
  if maxPermission < .read then some (.closed (cstr "permissionDenied"), σ)
  else match req.get (cstr "params") with
    | some (.object members) =>
      match (Json.object members).get (cstr "Path") with
      | some (.string path) =>
        (σ.getPermissionList path link).map (fun r => (.row (r.1.getD .null), r.2))
      | _ => some (.closed (cstr "invalidParameter"), σ)
    | _ => some (.closed (cstr "invalidParameter"), σ)

end Site

/-- What is read is the list of the virtual node. -/
theorem getVirtualPermissionList_fst (names : List CString) (node : VirtualDownstreamNode) :
    (getVirtualPermissionList names node).1
      = permissionListSave ((virtualNode names node).bind VirtualDownstreamNode.permissionList) := by
  induction names generalizing node with
  | nil => rfl
  | cons name names ih =>
    show (getVirtualPermissionList names _).1 = _
    rw [ih]
    cases hchild : AssocMap.lookupIn name node.childrenNode with
    | none => simp only [Option.getD_none, virtualNode, hchild, virtualNode_init_list, Option.bind_none]
    | some child => simp only [Option.getD_some, virtualNode, hchild, Option.bind_some]

/-- Reading leaves a virtual node as it is exactly if all nodes on the way are there. -/
theorem getVirtualPermissionList_snd (names : List CString) (node : VirtualDownstreamNode) :
    (getVirtualPermissionList names node).2 = node ↔ (virtualNode names node).isSome := by
  induction names generalizing node with
  | nil => exact iff_of_true rfl rfl
  | cons name names ih =>
    obtain ⟨list, children, metadata⟩ := node
    show VirtualDownstreamNode.mk list (AssocMap.setIn name _ children) metadata = .mk list children metadata ↔ _
    simp only [VirtualDownstreamNode.mk.injEq, true_and, and_true, AssocMap.setIn_eq_self]
    cases hchild : AssocMap.lookupIn name children with
    | none => simp [virtualNode, VirtualDownstreamNode.childrenNode, hchild]
    | some child =>
      simp only [virtualNode, VirtualDownstreamNode.childrenNode, hchild, Option.getD_some, Option.bind_some,
        Option.some.injEq]
      rw [eq_comm, ih]

namespace Site

/-- The place has no virtual node, or that virtual node is there. -/
def Present (σ : Site) : Place → Prop
  | (.downstream d, name :: names) => (σ.virtualAt d (name :: names)).isSome
  | _ => True

/-- What the walk returns, and when it changes nothing. -/
theorem getNodePermissionList_spec {json : Option Json} (h : σ.getNodePermissionList names node = some (json, σ')) :
    ∃ place, σ.placeFrom names node = some place ∧
      json = place.bind (fun p => permissionListSave (σ.listAt p)) ∧ (σ' = σ ↔ ∀ p, place = some p → σ.Present p) := by
  induction names generalizing node with
  | nil =>
    cases h
    refine ⟨_, rfl, rfl, iff_of_true rfl ?_⟩
    rintro p ⟨⟩
    cases node <;> trivial
  | cons name names ih =>
    cases node with
    | downstream d =>
      obtain ⟨rfl, rfl⟩ := Prod.mk.inj (Option.some.inj h)
      refine ⟨_, rfl, ?_, ?_⟩
      · rw [getVirtualPermissionList_fst]
        show _ = permissionListSave (Option.bind (Option.bind (AssocMap.lookupIn name (σ.childrenPermissions d)) _) _)
        cases hchild : AssocMap.lookupIn name (σ.childrenPermissions d) with
        | none => simp only [Option.getD_none, virtualNode_init_list, Option.bind_none]
        | some child => simp only [Option.getD_some, Option.bind_some]
      · have hsame : ∀ children : List (CString × VirtualDownstreamNode),
            ({ σ with childrenPermissions := Function.update σ.childrenPermissions d children } : Site) = σ ↔
              children = σ.childrenPermissions d := by
          intro children
          constructor
          · intro he
            simpa using congrFun (congrArg Site.childrenPermissions he) d
          · rintro rfl
            rw [Function.update_eq_self]
        rw [hsame, AssocMap.setIn_eq_self]
        have hplace : (∀ p, some ((NodeRef.downstream d, name :: names) : Place) = some p → σ.Present p) ↔
            (σ.virtualAt d (name :: names)).isSome :=
          ⟨fun hp => hp _ rfl, fun hp p he => Option.some.inj he ▸ hp⟩
        rw [hplace, virtualAt]
        cases hchild : AssocMap.lookupIn name (σ.childrenPermissions d) with
        | none => simp
        | some child =>
          simp only [Option.getD_some, Option.bind_some, Option.some.injEq]
          rw [eq_comm, getVirtualPermissionList_snd]
    | regular n =>
      rw [getNodePermissionList] at h
      obtain ⟨regular, hregular, h⟩ := Option.bind_eq_some_iff.mp h
      simp only [placeFrom, hregular, Option.bind_eq_bind, Option.bind_some]
      cases hchild : regular.children.get name with
      | none =>
        rw [hchild] at h
        cases h
        exact ⟨none, rfl, rfl, iff_of_true rfl (fun p hp => by cases hp)⟩
      | some child =>
        rw [hchild] at h
        exact ih h

theorem getNodePermissionList_isSome (hlive : σ.base.ChildrenLive) (names : List CString) {node : NodeRef}
    (hnode : ∀ n, node = .regular n → (σ.base.node.get n).isSome) : (σ.getNodePermissionList names node).isSome := by
  induction names generalizing node with
  | nil => rfl
  | cons name names ih =>
    cases node with
    | downstream d => rfl
    | regular n =>
      obtain ⟨regular, hregular⟩ := Option.isSome_iff_exists.mp (hnode n rfl)
      simp only [getNodePermissionList, hregular, Option.bind_eq_bind, Option.bind_some]
      cases hchild : regular.children.get name with
      | none => rfl
      | some child =>
        apply ih
        rintro c rfl
        exact hlive.child n regular name c hregular hchild

/-- Reading stays within the path and changes nothing; a link that may read gets the list of the place that the path
    stands for, and that is the list that any link replaces when it sets one through this path. -/
structure ReadsOnly (σ : Site) (path : CString) (L : DownId) : Prop where
  inBounds : (σ.getPermissionList path L).isSome
  unchanged : ∀ json σ', σ.getPermissionList path L = some (json, σ') → σ' = σ
  returned : ∀ json σ' level, σ.getPermissionList path L = some (json, σ') → σ.getPermission path L = some level →
    .read ≤ level → json = (σ.denotes path).join.bind (fun p => permissionListSave (σ.listAt p))
  replaced : ∀ json σ' M value τ level, σ.getPermissionList path L = some (json, σ') →
    σ.getPermission path L = some level → .read ≤ level → σ.setPermissionList path M value = some (τ, true) →
    ∃ p, σ.ListSet τ p (permissionListLoad value) ∧ json = permissionListSave (σ.listAt p)

/-- The action changes nothing but what reading the list changes. -/
theorem getPermissions_state {req : Json} {maxPermission : PermissionLevel} {reply : PermissionsReply}
    (h : σ.getPermissions L req maxPermission = some (reply, σ')) :
    σ' = σ ∨ ∃ path json, σ.getPermissionList path L = some (json, σ') := by
  unfold getPermissions at h
  split at h
  · exact Or.inl (Prod.mk.inj (Option.some.inj h)).2.symm
  · split at h
    · split at h
      · rename_i path _
        obtain ⟨⟨json, τ⟩, hget, h⟩ := Option.map_eq_some_iff.mp h
        cases h
        exact Or.inr ⟨path, json, hget⟩
      · exact Or.inl (Prod.mk.inj (Option.some.inj h)).2.symm
    · exact Or.inl (Prod.mk.inj (Option.some.inj h)).2.symm

/-- The condition: the link may not read there, or the path is not empty and no virtual node is missing on its way. -/
def NothingMissing (σ : Site) (path : CString) (L : DownId) : Prop :=
  ∀ level, σ.getPermission path L = some level → .read ≤ level →
    path ≠ [] ∧ ∀ p, σ.denotes path = some (some p) → σ.Present p

theorem getPermissionList_refused {level : PermissionLevel} (hlevel : σ.getPermission path L = some level)
    (hlt : level < .read) : σ.getPermissionList path L = some (none, σ) := by
  simp only [getPermissionList, hlevel, Option.bind_eq_bind, Option.bind_some, if_pos hlt]

theorem getPermissionList_allowed {level : PermissionLevel} {c : UInt8}
    (hlevel : σ.getPermission (c :: path) L = some level) (hle : .read ≤ level) :
    σ.getPermissionList (c :: path) L = σ.getNodePermissionList (pathNames path) (.regular σ.base.root) := by
  have hlt : ¬level < .read := Nat.not_lt.mpr hle
  simp only [getPermissionList, hlevel, Option.bind_eq_bind, Option.bind_some, if_neg hlt, List.tail?]

/-- A list that was set through a path was set at the place that the path stands for. -/
theorem setPermissionList_place {M : DownId} {value : Json} {c : UInt8}
    (h : σ.setPermissionList (c :: path) M value = some (σ', true)) :
    ∃ p, σ.denotes (c :: path) = some (some p) ∧ σ.ListSet σ' p (permissionListLoad value) := by
  unfold setPermissionList at h
  split at h
  · obtain ⟨level, -, h⟩ := Option.bind_eq_some_iff.mp h
    split at h
    · cases h
    · exact (setNodePermissionList_spec h).1 rfl
  · cases h

theorem readsOnly_allowed (hlive : σ.base.ChildrenLive) {level : PermissionLevel} {c : UInt8}
    (hlevel : σ.getPermission (c :: path) L = some level) (hle : .read ≤ level) :
    σ.ReadsOnly (c :: path) L ↔ ∀ p, σ.denotes (c :: path) = some (some p) → σ.Present p := by
  have hget := getPermissionList_allowed hlevel hle
  have hsome : (σ.getPermissionList (c :: path) L).isSome := by
    rw [hget]
    apply getNodePermissionList_isSome hlive
    rintro n ⟨⟩
    exact hlive.root
  obtain ⟨⟨json, σ'⟩, hrun⟩ := Option.isSome_iff_exists.mp hsome
  obtain ⟨place, hplace, hjson, hsame⟩ := getNodePermissionList_spec (hget.symm.trans hrun)
  have hdenotes : σ.denotes (c :: path) = some place := hplace
  have hpresent : (∀ p, place = some p → σ.Present p) ↔ ∀ p, σ.denotes (c :: path) = some (some p) → σ.Present p := by
    simp only [hdenotes, Option.some.injEq]
  rw [← hpresent, ← hsame]
  constructor
  · exact fun h => h.unchanged json σ' hrun
  · intro hσ
    refine ⟨hsome, fun json' τ h => ?_, fun json' τ level' h _ _ => ?_, fun json' τ M value ρ level' h _ _ hset => ?_⟩
    · rw [hrun] at h
      cases h
      exact hσ
    · rw [hrun] at h
      cases h
      rw [hdenotes, Option.join_some, hjson]
    · rw [hrun] at h
      cases h
      obtain ⟨p, hp, hlists⟩ := setPermissionList_place hset
      rw [hdenotes] at hp
      refine ⟨p, hlists, ?_⟩
      rw [hjson, Option.some.inj hp, Option.bind_some]

theorem readsOnly_iff (hlive : σ.base.ChildrenLive) (path : CString) (L : DownId) :
    σ.ReadsOnly path L ↔ σ.NothingMissing path L := by
  obtain ⟨level, hlevel⟩ := Option.isSome_iff_exists.mp (getPermission_isSome hlive path L)
  by_cases hle : .read ≤ level
  · have hcond : σ.NothingMissing path L ↔ path ≠ [] ∧ ∀ p, σ.denotes path = some (some p) → σ.Present p := by
      refine ⟨fun h => h level hlevel hle, ?_⟩
      rintro h level' - -
      exact h
    rw [hcond]
    cases path with
    | nil =>
      refine iff_of_false (fun h => ?_) (fun h => h.1 rfl)
      have := h.inBounds
      have hlt : ¬level < .read := Nat.not_lt.mpr hle
      simp [getPermissionList, hlevel, hlt] at this
    | cons c path =>
      rw [readsOnly_allowed hlive hlevel hle]
      simp
  · have hlt : level < .read := Nat.not_le.mp hle
    have hget := getPermissionList_refused hlevel hlt
    have hno : ∀ level', σ.getPermission path L = some level' → ¬PermissionLevel.read ≤ level' := by
      rintro level' h
      rw [hlevel] at h
      exact Option.some.inj h ▸ hle
    refine iff_of_true ⟨by rw [hget]; rfl, fun json τ h => ?_, fun json τ level' _ h hr => absurd hr (hno level' h),
      fun json τ M value ρ level' _ h hr _ => absurd hr (hno level' h)⟩ (fun level' h hr => absurd hr (hno level' h))
    rw [hget] at h
    cases h
    rfl

/-- **Reading permissions.** In every reachable state reading a permission list stays within its path, returns the
    list that would be replaced and changes nothing, exactly if no virtual node is missing on the way. -/
theorem get_permission_list_exact {cfg : Config} (hreach : Reach (Broker.step cfg) (Broker.RootStays cfg)
    (fun base => Broker.brokerInit = some base) σ.base) (path : CString) (L : DownId) :
    σ.ReadsOnly path L ↔ σ.NothingMissing path L :=
  readsOnly_iff (Broker.reach_treeLive hreach).toChildrenLive path L

theorem get_permission_list_link : ∃ σ : Site, Reach (Broker.step Broker.smallConfig) (Broker.RootStays Broker.smallConfig)
    (fun base => Broker.brokerInit = some base) σ.base ∧
      (σ.ReadsOnly (cstr "/downstream/x") 0 ↔ σ.NothingMissing (cstr "/downstream/x") 0) := by
  have hrun := Reach.of_guarded (Broker.step Broker.smallConfig) (Broker.RootStays Broker.smallConfig) Broker.brokerInit
    twoLinks (fun _ => true) (by decide)
  obtain ⟨base, hreach, -⟩ := hrun
  exact ⟨openSite base .read (by decide), hreach, get_permission_list_exact hreach _ _⟩

/-- The link `r` may only read, and its request adds a virtual node below the link `x`. -/
theorem get_permission_list_grows : ∃ σ : Site, Reach (Broker.step Broker.smallConfig) (Broker.RootStays Broker.smallConfig)
    (fun base => Broker.brokerInit = some base) σ.base ∧
      σ.getPermission (cstr "/downstream/x/a") 0 = some .read ∧ ¬σ.ReadsOnly (cstr "/downstream/x/a") 0 := by
  have hrun := Reach.of_guarded (Broker.step Broker.smallConfig) (Broker.RootStays Broker.smallConfig) Broker.brokerInit
    twoLinks (fun base => decide ((openSite base .read (by decide)).getPermission (cstr "/downstream/x/a") 0 = some .read)
      && ((openSite base .read (by decide)).getPermissionList (cstr "/downstream/x/a") 0).any
        (fun r => (r.2.virtualAt 1 [cstr "a"]).isSome)) (by decide)
  obtain ⟨base, hreach, hcheck⟩ := hrun
  obtain ⟨hlevel, hgrown⟩ := (Bool.and_eq_true _ _).mp hcheck
  obtain ⟨⟨json, σ'⟩, hget, hgrown⟩ := (Option.any_eq_true _ _).mp hgrown
  refine ⟨openSite base .read (by decide), hreach, of_decide_eq_true hlevel, fun h => ?_⟩
  -- no virtual node is there before
  rw [h.unchanged json σ' hget] at hgrown
  cases hgrown

end Site

end DSLink
