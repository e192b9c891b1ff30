import DSLink.Broker.Attribute
import DSLink.Broker.DataTree
import DSLink.Broker.PermissionList

/-!
# `Broker.Conns` — the nodes below `/downstream` and `conns.json`

The half of `node_serialization.c` that writes and reads `conns.json`, with all that changes what is written: the two
requests of the handshake, `broker_dslink_connect` and `broker_dslink_disconnect`, the group of a link, attributes,
permission lists, and the two actions that clear connections. A change schedules a save of all nodes; the timer is
`saveConnsHandler`. The file is the value that was dumped.

## Contents
- `saveObject`, `loadVirtualMembers`, `brokerSaveDownstreamNodes`, `brokerLoadDownstreamNodes`.
- `State`, `Event`, `step`.
- `Sound`: different names, and metadata under keys of metadata. `State.Reached.whole`.
-/

namespace DSLink.Conns

open DataTree (isMetaKey)

/-! ## The nodes -/

/-- `DownstreamNode`. `own` is its `meta`, `permissionList` and `children_permissions`, which a virtual node has as
    well; `link` says whether there is a link. -/
structure DownstreamNode where
  dsId : Option CString
  groups : Option CString
  link : Bool
  own : VirtualDownstreamNode

/-- The metadata of a node is replaced. -/
def withMeta (node : VirtualDownstreamNode) (metadata : Metadata) : VirtualDownstreamNode :=
  .mk node.permissionList node.childrenNode metadata

/-- `json_object_set` on `node->meta`. -/
def setMeta (node : VirtualDownstreamNode) (key : CString) (value : Json) : VirtualDownstreamNode :=
  withMeta node (node.metadata.set key value)

/-- `json_object_del` on `node->meta`. -/
def delMeta (node : VirtualDownstreamNode) (key : CString) : VirtualDownstreamNode :=
  withMeta node (node.metadata.erase key)

/-- `broker_init_downstream_node`. -/
def brokerInitDownstreamNode : DownstreamNode :=
  ⟨none, none, false, setMeta .init (cstr "$is") (.string (cstr "dsa/link"))⟩

/-! ## The writer -/

/-- A permission list is put into the object of its node. -/
def savePermissions (list : Option (List PermissionPair)) (data : Json) : Json :=
  match permissionListSave list with
  | some plist => data.set (cstr "?permissions") plist
  | none => data

mutual

/-- The object that is written for a node. -/
def saveObject : VirtualDownstreamNode → Json
  | .mk permissionList childrenNode metadata =>
    saveVirtualNodes (savePermissions permissionList (.object metadata.entries)) childrenNode

/-- The loop over the virtual nodes below, with the body of `broker_save_downstream_virtual_nodes`. -/
def saveVirtualNodes (data : Json) : List (CString × VirtualDownstreamNode) → Json
  | [] => data
  | (name, vnode) :: rest => saveVirtualNodes (data.set name (saveObject vnode)) rest

end

/-- What is written of a downstream node: all of its own but `$disconnectedTs`. -/
def saved (node : DownstreamNode) : VirtualDownstreamNode := delMeta node.own (cstr "$disconnectedTs")

/-- `broker_save_downstream_nodes`. -/
def brokerSaveDownstreamNodes (nodes : AssocMap CString DownstreamNode) : Json :=
  nodes.entries.foldl (fun top entry => top.set entry.1 (saveObject (saved entry.2))) (.object [])

/-! ## The reader -/

/-- A key that begins with a question mark. -/
def isOtherKey (key : CString) : Bool := key.head? = some 63

mutual

/-- The virtual node that `broker_load_downstream_virtual_nodes` makes of a value. -/
def loadVirtual : Json → VirtualDownstreamNode
  | .object members => loadVirtualMembers .init members
  | _ => .init

/-- Its loop over the members. -/
def loadVirtualMembers (node : VirtualDownstreamNode) : Object → VirtualDownstreamNode
  | [] => node
  | (key, value) :: rest =>
    if isOtherKey key then
      loadVirtualMembers (if key = cstr "?permissions" then
        .mk (permissionListLoad value) node.childrenNode node.metadata else node) rest
    else if isMetaKey key then loadVirtualMembers (setMeta node key value) rest
    else loadVirtualMembers
      (.mk node.permissionList (AssocMap.setIn key (loadVirtual value) node.childrenNode) node.metadata) rest

end

/-- The body of the inner loop of `broker_load_downstream_nodes`. -/
def loadMember (node : DownstreamNode) (key : CString) (value : Json) : DownstreamNode :=
  if isOtherKey key then
    if key = cstr "?permissions" then
      { node with own := .mk (permissionListLoad value) node.own.childrenNode node.own.metadata }
    else node
  else if isMetaKey key then
    { node with
      own := setMeta node.own key value
      groups := if key = cstr "$$group" then value.stringValue.or node.groups else node.groups }
  else
    let children := AssocMap.setIn key (loadVirtual value) node.own.childrenNode
    { node with own := .mk node.own.permissionList children node.own.metadata }

/-- The body of its outer loop. `none` is a member that is skipped. -/
def loadNodemap (nodename : CString) (nodemap : Json) : Option DownstreamNode :=
  if isMetaKey nodename then none
  else
    match nodemap with
    | .object members => do
      let dsId ← (nodemap.get (cstr "$$dsId")).bind Json.stringValue
      some (members.foldl (fun node member => loadMember node member.1 member.2)
        { brokerInitDownstreamNode with dsId := some dsId })
    | _ => none

/-- The members of what is no object are none. -/
def topMembers : Option Json → Object
  | some (.object members) => members
  | _ => []

/-- `broker_load_downstream_nodes`, at the start of a broker. -/
def brokerLoadDownstreamNodes (file : Option Json) : AssocMap CString DownstreamNode :=
  (topMembers file).foldl
    (fun nodes member => ((loadNodemap member.1 member.2).map (nodes.set member.1)).getD nodes) .empty

/-! ## The broker -/

/-- `broker->downstream->children`, whether `saveConnsHandler` is set, and `conns.json`. -/
structure State where
  nodes : AssocMap CString DownstreamNode
  saveConnsHandler : Bool
  file : Option Json

namespace State

variable (σ : State)

/-- A node is changed or made, and a save is scheduled. -/
def put (name : CString) (node : DownstreamNode) : State :=
  { σ with nodes := σ.nodes.set name node, saveConnsHandler := true }

/-- A node is changed, and no save is scheduled. -/
def keep (name : CString) (node : DownstreamNode) : State := { σ with nodes := σ.nodes.set name node }

/-- The nodes that have `p` are taken away. -/
def clear (p : DownstreamNode → Bool) : State :=
  { σ with nodes := σ.nodes.filterKeys fun name => !(σ.nodes.get name).any p, saveConnsHandler := true }

end State

/-- `broker_dslink_disconnect`, with `link` set to NULL before. -/
def brokerDslinkDisconnect (node : DownstreamNode) (ts : CString) : DownstreamNode :=
  { node with link := false, own := setMeta node.own (cstr "$disconnectedTs") (.string ts) }

/-- `broker_close_link` of the link of a node, if there is one. -/
def brokerCloseLink (node : DownstreamNode) (ts : CString) : DownstreamNode :=
  if node.link then brokerDslinkDisconnect node ts else node

/-- `broker_dslink_connect`. -/
def brokerDslinkConnect (node : DownstreamNode) : DownstreamNode :=
  { node with link := true, own := delMeta node.own (cstr "$disconnectedTs") }

/-- The block of `broker_handshake_handle_conn` for a token. -/
def claimNode (node : DownstreamNode) (dsId token : CString) (group : Option Json) (listed : Bool) : DownstreamNode :=
  let own := setMeta node.own (cstr "$$token") (.string token)
  { node with
    dsId := some dsId
    link := if listed then false else node.link
    own := match group.bind Json.stringValue with
      | some group => setMeta own (cstr "$$group") (.string group)
      | none => own }

/-- What `broker_handshake_handle_ws` does to the node of a link. -/
def acceptNode (node : DownstreamNode) (dsId ts : CString) : DownstreamNode :=
  let node := brokerCloseLink node ts
  brokerDslinkConnect { node with own := setMeta node.own (cstr "$$dsId") (.string dsId) }

/-- What `update_permission_group` does to the node. -/
def updateGroup (node : DownstreamNode) (group : Option CString) (ts : CString) : DownstreamNode :=
  brokerCloseLink { node with
    groups := group
    own := match group with
      | some group => setMeta node.own (cstr "$$group") (.string group)
      | none => delMeta node.own (cstr "$$group") } ts

/-- Whether `clear_managed_link` takes the node away. -/
def hasToken (token : CString) (node : DownstreamNode) : Bool :=
  (node.own.metadata.get (cstr "$$token")).bind Json.stringValue = some token

/-- What happens to the nodes. The name of a node and `nodeExists` are what the search for a name gave; `names` are
    the names on a path below the node, and `profile` is the `$is` that a broker sends for its root. -/
inductive Event
  | claim (name dsId token : CString) (group : Option Json) (nodeExists listed : Bool)
  | ws (name dsId ts : CString)
  | disconnect (name ts : CString)
  | profile (name : CString)
  | updateGroup (name : CString) (group : Option CString) (ts : CString)
  | setAttribute (name : CString) (names : List CString) (key : CString) (value : Json)
  | removeAttribute (name : CString) (names : List CString) (key : CString)
  | setPermissionList (name : CString) (names : List CString) (permissions : Json)
  | getPermissionList (name : CString) (names : List CString)
  | clearConns
  | clearManagedLink (token : CString)
  | save
  | restart

/-- A broker that starts with a file. -/
def State.start (file : Option Json) : State := ⟨brokerLoadDownstreamNodes file, false, file⟩

/-- One event. `none` is one that does not occur: its node is there, the name of an attribute starts with `@`, and the
    timer fires if it is set. -/
def step (σ : State) : Event → Option State
  | .claim name dsId token group nodeExists listed =>
    (if nodeExists then σ.nodes.get name else some brokerInitDownstreamNode).map fun node =>
      σ.put name (claimNode node dsId token group listed)
  | .ws name dsId ts =>
    match σ.nodes.get name with
    | some node => some (σ.keep name (acceptNode node dsId ts))
    | none => some (σ.put name (acceptNode { brokerInitDownstreamNode with dsId := some dsId } dsId ts))
  | .disconnect name ts => (σ.nodes.get name).bind fun node =>
    if node.link then some (σ.keep name (brokerDslinkDisconnect node ts)) else none
  | .profile name => (σ.nodes.get name).map fun node =>
    σ.keep name { node with own := setMeta node.own (cstr "$is") (.string (cstr "dsa/broker")) }
  | .updateGroup name group ts => (σ.nodes.get name).map fun node => σ.put name (updateGroup node group ts)
  | .setAttribute name names key value => (σ.nodes.get name).bind fun node =>
    if key.head? = some 64 then
      some (σ.put name { node with own := (setVirtualAttribute (some key) (some value) names node.own).1 })
    else none
  | .removeAttribute name names key => (σ.nodes.get name).bind fun node =>
    if key.head? = some 64 then
      some (σ.put name { node with own := (setVirtualAttribute (some key) none names node.own).1 })
    else none
  | .setPermissionList name names permissions => (σ.nodes.get name).map fun node =>
    σ.put name { node with own := setVirtualPermissionList (permissionListLoad permissions) names node.own }
  | .getPermissionList name names => (σ.nodes.get name).map fun node =>
    σ.keep name { node with own := (getVirtualPermissionList names node.own).2 }
  | .clearConns => some (σ.clear fun node => !node.link)
  | .clearManagedLink token =>
    if σ.nodes.values.any (hasToken token) then some (σ.clear (hasToken token)) else some σ
  | .save =>
    if σ.saveConnsHandler then
      some { σ with saveConnsHandler := false, file := some (brokerSaveDownstreamNodes σ.nodes) }
    else none
  | .restart => some (.start σ.file)

/-- The states of all runs of a broker that starts with any file. -/
def State.Reached : State → Prop := Reach step (fun _ _ => True) (fun σ => ∃ file, σ = .start file)

/-! ## The three walks below a link

They are those of `Site`, on what a downstream node has of its own. -/

/-- What a downstream node of a `Site` has of its own. -/
def ownOf (σ : Site) (d : DownId) : VirtualDownstreamNode :=
  .mk (σ.permissionList (.downstream d)) (σ.childrenPermissions d) (σ.metadata (.downstream d))

theorem setDownstreamAttribute_own (σ : Site) (d : DownId) (path key : CString) (value : Option Json) :
    ownOf (σ.setDownstreamAttribute path d (some key) value).1 d =
      (setVirtualAttribute (some key) value (pathNames path) (ownOf σ d)).1 := by
  unfold Site.setDownstreamAttribute
  cases pathNames path with
  | nil => simp [ownOf, setVirtualAttribute, VirtualDownstreamNode.permissionList, VirtualDownstreamNode.childrenNode,
      VirtualDownstreamNode.metadata]
  | cons name names => simp [ownOf, setVirtualAttribute, VirtualDownstreamNode.permissionList,
      VirtualDownstreamNode.childrenNode, VirtualDownstreamNode.metadata]

theorem setNodePermissionList_own (σ : Site) (d : DownId) (permissions : Option (List PermissionPair))
    (names : List CString) : (σ.setNodePermissionList permissions names (.downstream d)).map (ownOf ·.1 d) =
      some (setVirtualPermissionList permissions names (ownOf σ d)) := by
  cases names with
  | nil => simp [Site.setNodePermissionList, ownOf, setVirtualPermissionList, VirtualDownstreamNode.childrenNode,
      VirtualDownstreamNode.metadata]
  | cons name names => simp [Site.setNodePermissionList, ownOf, setVirtualPermissionList,
      VirtualDownstreamNode.permissionList, VirtualDownstreamNode.childrenNode, VirtualDownstreamNode.metadata]

theorem getNodePermissionList_own (σ : Site) (d : DownId) (names : List CString) :
    (σ.getNodePermissionList names (.downstream d)).map (fun r => (r.1, ownOf r.2 d)) =
      some (getVirtualPermissionList names (ownOf σ d)) := by
  cases names with
  | nil => rfl
  | cons name names => simp [Site.getNodePermissionList, ownOf, getVirtualPermissionList,
      VirtualDownstreamNode.permissionList, VirtualDownstreamNode.childrenNode, VirtualDownstreamNode.metadata]

/-! ## What every node satisfies -/

/-- The names below a node are different, its metadata is under keys of metadata, and so below. -/
inductive Sound : VirtualDownstreamNode → Prop
  | intro {node : VirtualDownstreamNode} (distinct : (node.childrenNode.map Prod.fst).Nodup)
      (keys : ∀ key, (node.metadata.get key).isSome → isMetaKey key = true)
      (below : ∀ name child, AssocMap.lookupIn name node.childrenNode = some child → Sound child) : Sound node

namespace Sound

variable {node child : VirtualDownstreamNode} {name key : CString}

theorem distinct (h : Sound node) : (node.childrenNode.map Prod.fst).Nodup := by
  cases h
  assumption

theorem keys (h : Sound node) : ∀ key, (node.metadata.get key).isSome → isMetaKey key = true := by
  cases h
  assumption

theorem lower (h : Sound node) :
    ∀ name child, AssocMap.lookupIn name node.childrenNode = some child → Sound child := by
  cases h
  assumption

theorem init : Sound .init := .intro List.nodup_nil nofun nofun

theorem setMeta (h : Sound node) (hkey : isMetaKey key = true) (value : Json) : Sound (setMeta node key value) := by
  refine .intro h.distinct (fun k hk => ?_) h.lower
  by_cases he : k = key
  · exact he ▸ hkey
  · exact h.keys k (by rwa [← AssocMap.get_set_ne (m := node.metadata) (a := value) he])

theorem delMeta (h : Sound node) (key : CString) : Sound (delMeta node key) := by
  refine .intro h.distinct (fun k hk => ?_) h.lower
  obtain ⟨value, hk⟩ := Option.isSome_iff_exists.mp hk
  exact h.keys k (Option.isSome_iff_exists.mpr ⟨value, (AssocMap.get_erase_eq_some.mp hk).2⟩)

theorem setList (h : Sound node) (list : Option (List PermissionPair)) :
    Sound (.mk list node.childrenNode node.metadata) := .intro h.distinct h.keys h.lower

/-- A sound node is put below one. -/
theorem setChild (h : Sound node) (hchild : Sound child) (name : CString) :
    Sound (.mk node.permissionList (AssocMap.setIn name child node.childrenNode) node.metadata) := by
  refine .intro (AssocMap.nodup_setIn h.distinct) h.keys fun other c hc => ?_
  have hc : AssocMap.lookupIn other (AssocMap.setIn name child node.childrenNode) = some c := hc
  rw [AssocMap.lookupIn_setIn] at hc
  split at hc
  · exact Option.some.inj hc ▸ hchild
  · exact h.lower other c hc

/-- The node that a walk goes on with. -/
theorem getChild (h : Sound node) (name : CString) : Sound ((AssocMap.lookupIn name node.childrenNode).getD .init) := by
  cases hc : AssocMap.lookupIn name node.childrenNode with
  | none => exact .init
  | some child => exact h.lower name child hc

theorem setAttribute (h : Sound node) (hkey : isMetaKey key = true) (value : Option Json) (names : List CString) :
    Sound (setVirtualAttribute (some key) value names node).1 := by
  induction names generalizing node with
  | nil =>
    rw [setVirtualAttribute]
    cases value with
    | none => exact (h.delMeta key).setList _
    | some value => exact (h.setMeta hkey value).setList _
  | cons name names ih =>
    simp only [setVirtualAttribute, and_false, Option.isNone_some, Bool.false_eq_true, if_false]
    exact h.setChild (ih (h.getChild name)) name

theorem setPermissionList (h : Sound node) (permissions : Option (List PermissionPair)) (names : List CString) :
    Sound (setVirtualPermissionList permissions names node) := by
  induction names generalizing node with
  | nil => exact h.setList permissions
  | cons name names ih => exact h.setChild (ih (h.getChild name)) name

theorem getPermissionList (h : Sound node) (names : List CString) : Sound (getVirtualPermissionList names node).2 := by
  induction names generalizing node with
  | nil => exact h
  | cons name names ih => exact h.setChild (ih (h.getChild name)) name

end Sound

mutual

/-- Whatever is loaded is sound. -/
theorem loadVirtual_sound : ∀ data : Json, Sound (loadVirtual data)
  | .object members => by
    rw [loadVirtual]
    exact loadVirtualMembers_sound members .init
  | .null | .bool _ | .integer _ | .real _ | .string _ | .array _ => by
    rw [loadVirtual]
    · exact .init
    · exact nofun

theorem loadVirtualMembers_sound : ∀ (members : Object) {node : VirtualDownstreamNode}, Sound node →
    Sound (loadVirtualMembers node members)
  | [], node, h => by
    rw [loadVirtualMembers]
    exact h
  | (key, value) :: rest, node, h => by
    rw [loadVirtualMembers]
    split
    · refine loadVirtualMembers_sound rest ?_
      split
      · exact h.setList _
      · exact h
    · split
      · exact loadVirtualMembers_sound rest (h.setMeta ‹_› value)
      · exact loadVirtualMembers_sound rest (h.setChild (loadVirtual_sound value) key)

end

/-- A sound node with a profile. -/
structure Whole (node : DownstreamNode) : Prop where
  sound : Sound node.own
  profile : (node.own.metadata.get (cstr "$is")).isSome

namespace Whole

variable {node : DownstreamNode} {key : CString}

/-- Metadata may be set, and other metadata than the profile may be deleted. -/
theorem setMeta (h : Whole node) (hkey : isMetaKey key = true) (value : Json) (dsId groups : Option CString)
    (link : Bool) : Whole ⟨dsId, groups, link, setMeta node.own key value⟩ := by
  refine ⟨h.sound.setMeta hkey value, ?_⟩
  show ((node.own.metadata.set key value).get _).isSome = true
  rw [AssocMap.get_set]
  split
  · rfl
  · exact h.profile

theorem delMeta (h : Whole node) (hkey : key ≠ cstr "$is") (dsId groups : Option CString) (link : Bool) :
    Whole ⟨dsId, groups, link, delMeta node.own key⟩ := by
  refine ⟨h.sound.delMeta key, ?_⟩
  show ((node.own.metadata.erase key).get _).isSome = true
  rw [AssocMap.get_erase_ne (Ne.symm hkey)]
  exact h.profile

/-- The other fields do not matter. -/
theorem other (h : Whole node) (dsId groups : Option CString) (link : Bool) : Whole ⟨dsId, groups, link, node.own⟩ :=
  ⟨h.sound, h.profile⟩

theorem closeLink (h : Whole node) (ts : CString) : Whole (brokerCloseLink node ts) := by
  unfold brokerCloseLink
  split
  · exact h.setMeta (by decide) _ _ _ _
  · exact h

theorem acceptNode (h : Whole node) (dsId ts : CString) : Whole (acceptNode node dsId ts) := by
  have hkey : isMetaKey (cstr "$$dsId") = true := by decide
  exact ((h.closeLink ts).setMeta hkey (.string dsId) _ _ _).delMeta (by decide) _ _ _

theorem claimNode (h : Whole node) (dsId token : CString) (group : Option Json) (listed : Bool) :
    Whole (claimNode node dsId token group listed) := by
  have hkey : isMetaKey (cstr "$$token") = true := by decide
  have htoken := h.setMeta hkey (.string token) (some dsId) node.groups (if listed then false else node.link)
  unfold Conns.claimNode
  cases group.bind Json.stringValue with
  | none => exact htoken
  | some group => exact htoken.setMeta (by decide) _ _ _ _

theorem updateGroup (h : Whole node) (group : Option CString) (ts : CString) : Whole (updateGroup node group ts) := by
  refine closeLink ?_ ts
  cases group with
  | none => exact h.delMeta (by decide) _ _ _
  | some group => exact h.setMeta (by decide) _ _ _ _

/-- An attribute is set or deleted, here or below. -/
theorem setAttribute (h : Whole node) (hkey : key.head? = some 64) (value : Option Json) (names : List CString) :
    Whole { node with own := (setVirtualAttribute (some key) value names node.own).1 } := by
  refine ⟨h.sound.setAttribute (by simp [isMetaKey, hkey]) value names, ?_⟩
  cases names with
  | nil =>
    have hne : cstr "$is" ≠ key := by
      rintro rfl
      exact absurd hkey (by decide)
    show ((setMember node.own.metadata (some key) value).get _).isSome = true
    cases value with
    | none =>
      rw [setMember, AssocMap.get_erase_ne hne]
      exact h.profile
    | some value =>
      rw [setMember, AssocMap.get_set_ne hne]
      exact h.profile
  | cons name names =>
    simp only [setVirtualAttribute, and_false, Option.isNone_some, Bool.false_eq_true, if_false]
    exact h.profile

theorem setPermissionList (h : Whole node) (permissions : Option (List PermissionPair)) (names : List CString) :
    Whole { node with own := setVirtualPermissionList permissions names node.own } := by
  refine ⟨h.sound.setPermissionList permissions names, ?_⟩
  cases names <;> exact h.profile

theorem getPermissionList (h : Whole node) (names : List CString) :
    Whole { node with own := (getVirtualPermissionList names node.own).2 } := by
  refine ⟨h.sound.getPermissionList names, ?_⟩
  cases names <;> exact h.profile

theorem loadMember (h : Whole node) (key : CString) (value : Json) : Whole (loadMember node key value) := by
  unfold Conns.loadMember
  split
  · split
    · exact ⟨h.sound.setList _, h.profile⟩
    · exact h
  · split
    · exact h.setMeta ‹_› value _ _ _
    · exact ⟨h.sound.setChild (loadVirtual_sound value) key, h.profile⟩

end Whole

theorem whole_init : Whole brokerInitDownstreamNode := by
  refine ⟨Sound.init.setMeta (by decide) _, ?_⟩
  decide

theorem loadNodemap_whole {name : CString} {nodemap : Json} {node : DownstreamNode}
    (h : loadNodemap name nodemap = some node) : Whole node := by
  have hfold : ∀ (members : Object) {node : DownstreamNode}, Whole node →
      Whole (members.foldl (fun node member => loadMember node member.1 member.2) node) := by
    intro members
    induction members with
    | nil => exact id
    | cons e rest ih => exact fun h => ih (h.loadMember e.1 e.2)
  unfold loadNodemap at h
  split at h
  · cases h
  · cases nodemap with
    | object members =>
      obtain ⟨dsId, -, h⟩ := Option.bind_eq_some_iff.mp h
      exact Option.some.inj h ▸ hfold members (whole_init.other _ _ _)
    | _ => cases h

namespace State

/-- Every node is whole. -/
def AllWhole (σ : State) : Prop := ∀ name node, σ.nodes.get name = some node → Whole node

variable {σ σ' : State}

theorem AllWhole.put (h : σ.AllWhole) {name : CString} {node : DownstreamNode} (hnode : Whole node) (pending : Bool)
    (file : Option Json) : AllWhole ⟨σ.nodes.set name node, pending, file⟩ := by
  intro other n hn
  have hn : (σ.nodes.set name node).get other = some n := hn
  rw [AssocMap.get_set] at hn
  split at hn
  · exact Option.some.inj hn ▸ hnode
  · exact h other n hn

theorem AllWhole.clear (h : σ.AllWhole) (p : DownstreamNode → Bool) : (σ.clear p).AllWhole := by
  intro name node hn
  have hn : (σ.nodes.filterKeys _).get name = some node := hn
  rw [AssocMap.get_filterKeys] at hn
  split at hn
  · exact h name node hn
  · cases hn

theorem allWhole_start (file : Option Json) : (State.start file).AllWhole := by
  have hfold : ∀ (members : Object) (nodes : AssocMap CString DownstreamNode),
      AllWhole ⟨nodes, false, file⟩ → AllWhole ⟨members.foldl
        (fun nodes member => ((loadNodemap member.1 member.2).map (nodes.set member.1)).getD nodes) nodes,
        false, file⟩ := by
    intro members
    induction members with
    | nil => exact fun _ h => h
    | cons e rest ih =>
      intro nodes h
      refine ih _ ?_
      show AllWhole ⟨((loadNodemap e.1 e.2).map (nodes.set e.1)).getD nodes, false, file⟩
      cases hload : loadNodemap e.1 e.2 with
      | none => exact h
      | some node => exact h.put (loadNodemap_whole hload) false file
  exact hfold _ _ nofun

theorem AllWhole.step {e : Event} (h : σ.AllWhole) (hs : Conns.step σ e = some σ') : σ'.AllWhole := by
  cases e with
  | claim name dsId token group nodeExists listed =>
    obtain ⟨node, hnode, rfl⟩ := Option.map_eq_some_iff.mp hs
    refine h.put (Whole.claimNode ?_ dsId token group listed) _ _
    split at hnode
    · exact h name node hnode
    · exact Option.some.inj hnode ▸ whole_init
  | ws name dsId ts =>
    rw [Conns.step] at hs
    split at hs
    · obtain rfl := Option.some.inj hs
      exact h.put ((h name _ ‹_›).acceptNode dsId ts) _ _
    · obtain rfl := Option.some.inj hs
      exact h.put ((whole_init.other _ _ _).acceptNode dsId ts) _ _
  | disconnect name ts =>
    obtain ⟨node, hnode, hs⟩ := Option.bind_eq_some_iff.mp hs
    split at hs
    · obtain rfl := Option.some.inj hs
      exact h.put ((h name node hnode).setMeta (by decide) _ _ _ _) _ _
    · cases hs
  | profile name =>
    obtain ⟨node, hnode, rfl⟩ := Option.map_eq_some_iff.mp hs
    exact h.put ((h name node hnode).setMeta (by decide) _ _ _ _) _ _
  | updateGroup name group ts =>
    obtain ⟨node, hnode, rfl⟩ := Option.map_eq_some_iff.mp hs
    exact h.put ((h name node hnode).updateGroup group ts) _ _
  | setAttribute name names key value =>
    obtain ⟨node, hnode, hs⟩ := Option.bind_eq_some_iff.mp hs
    split at hs
    · obtain rfl := Option.some.inj hs
      exact h.put ((h name node hnode).setAttribute ‹_› _ names) _ _
    · cases hs
  | removeAttribute name names key =>
    obtain ⟨node, hnode, hs⟩ := Option.bind_eq_some_iff.mp hs
    split at hs
    · obtain rfl := Option.some.inj hs
      exact h.put ((h name node hnode).setAttribute ‹_› _ names) _ _
    · cases hs
  | setPermissionList name names permissions =>
    obtain ⟨node, hnode, rfl⟩ := Option.map_eq_some_iff.mp hs
    exact h.put ((h name node hnode).setPermissionList _ names) _ _
  | getPermissionList name names =>
    obtain ⟨node, hnode, rfl⟩ := Option.map_eq_some_iff.mp hs
    exact h.put ((h name node hnode).getPermissionList names) _ _
  | clearConns =>
    obtain rfl := Option.some.inj hs
    exact h.clear _
  | clearManagedLink token =>
    rw [Conns.step] at hs
    split at hs
    · obtain rfl := Option.some.inj hs
      exact h.clear _
    · obtain rfl := Option.some.inj hs
      exact h
  | save =>
    rw [Conns.step] at hs
    split at hs
    · obtain rfl := Option.some.inj hs
      exact h
    · cases hs
  | restart =>
    obtain rfl := Option.some.inj hs
    exact allWhole_start _

theorem Reached.whole (h : Reached σ) : σ.AllWhole :=
  h.invariant AllWhole (by rintro _ ⟨file, rfl⟩; exact allWhole_start file) fun _ _ _ hw _ hs => hw.step hs

end State

end DSLink.Conns
