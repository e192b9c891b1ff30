import DSLink.Broker.Json
import DSLink.Broker.Tree

/-!
# `Broker.Permission` — `permission/permission.c` over the whole broker

`Site` is the broker with what the access checks read: permission lists, the virtual nodes below downstream
nodes, metadata and the groups of the links. All of it is kept beside the subscription model, under the
addresses of its nodes.

## Contents
- `permissionLevelStr`, `permissionStrLevel` and the lists of pairs, loaded and saved.
- `VirtualDownstreamNode`, `Site`.
- `getPermission`: the levels are collected along the path, one for each group of the link.
-/

namespace DSLink

/-! ## Levels and their names -/

/-- `PERMISSION_NAMES`. -/
def permissionName : PermissionLevel → CString
  | .none => cstr "none"
  | .list => cstr "list"
  | .read => cstr "read"
  | .write => cstr "write"
  | .config => cstr "config"
  | .never => cstr "never"

/-- `permission_level_str`. Every level is in the range the source checks for. -/
def permissionLevelStr (level : PermissionLevel) : CString := permissionName level

/-- `permission_str_level`. The scan ends at `PERMISSION_CONFIG`, so a text it does not find gives the number
    after it. -/
def permissionStrLevel (str : Option CString) : PermissionLevel :=
  match str with
  | none => .never
  | some str =>
    (([.none, .list, .read, .write, .config] : List PermissionLevel).find?
      (fun p => str = permissionName p)).getD .never

/-- `a <= b` on the numbers of two levels. -/
instance : LE PermissionLevel := ⟨fun a b => a.toNat ≤ b.toNat⟩

/-- `a < b` on the numbers of two levels. -/
instance : LT PermissionLevel := ⟨fun a b => a.toNat < b.toNat⟩

instance (a b : PermissionLevel) : Decidable (a ≤ b) := inferInstanceAs (Decidable (a.toNat ≤ b.toNat))

instance (a b : PermissionLevel) : Decidable (a < b) := inferInstanceAs (Decidable (a.toNat < b.toNat))

/-- `if (a > b) a = b`. -/
def PermissionLevel.cap (a b : PermissionLevel) : PermissionLevel := if b < a then b else a

theorem PermissionLevel.cap_le_left (a b : PermissionLevel) : a.cap b ≤ a := by
  unfold cap
  split
  · exact Nat.le_of_lt ‹_›
  · exact Nat.le_refl _

theorem PermissionLevel.cap_le_right (a b : PermissionLevel) : a.cap b ≤ b := by
  unfold cap
  split
  · exact Nat.le_refl _
  · exact Nat.not_lt.mp ‹_›

theorem PermissionLevel.le_cap {a b c : PermissionLevel} (ha : c ≤ a) (hb : c ≤ b) : c ≤ a.cap b := by
  unfold cap
  split
  · exact hb
  · exact ha

theorem PermissionLevel.toNat_inj {a b : PermissionLevel} (h : a.toNat = b.toNat) : a = b := by
  cases a <;> cases b <;> first | rfl | cases h

/-- A level up to config is read back from its name. -/
theorem permissionStrLevel_name {level : PermissionLevel} (h : level ≤ .config) :
    permissionStrLevel (some (permissionLevelStr level)) = level := by
  cases level with
  | never => exact absurd h (by decide)
  | _ => decide

/-! ## Permission lists -/

/-- `PermissionPair`. Only levels up to config are ever put into a list. -/
structure PermissionPair where
  group : CString
  permission : PermissionLevel
  le_config : permission ≤ .config

/-- `permission_list_load` for one element of the array. -/
def permissionPairLoad : Json → Option PermissionPair
  | .array [.string group, .string level] =>
    if h : permissionStrLevel (some level) ≤ .config then some ⟨group, permissionStrLevel (some level), h⟩ else none
  | _ => none

/-- `permission_list_load`. -/
def permissionListLoad : Json → Option (List PermissionPair)
  | .array [] => none
  | .array elems => some (elems.filterMap permissionPairLoad)
  | _ => none

/-- `permission_list_save` for one pair. -/
def permissionPairSave (p : PermissionPair) : Json := .array [.string p.group, .string (permissionName p.permission)]

/-- `permission_list_save`. An empty list is not saved. -/
def permissionListSave : Option (List PermissionPair) → Option Json
  | none => none
  | some [] => none
  | some list => some (.array (list.map permissionPairSave))

theorem permissionPairLoad_save (p : PermissionPair) : permissionPairLoad (permissionPairSave p) = some p := by
  obtain ⟨group, level, h⟩ := p
  have hlevel : permissionStrLevel (some (permissionName level)) = level := permissionStrLevel_name h
  simp only [permissionPairSave, permissionPairLoad, hlevel]
  exact dif_pos h

/-- A list that is saved is loaded again. -/
theorem permissionListLoad_save {list : Option (List PermissionPair)} {json : Json}
    (h : permissionListSave list = some json) : permissionListLoad json = list := by
  match list, h with
  | some (p :: list), h =>
    obtain rfl := Option.some.inj h
    show some (List.filterMap permissionPairLoad ((p :: list).map permissionPairSave)) = some (p :: list)
    rw [List.filterMap_map]
    refine congrArg some ((List.filterMap_congr fun q _ => ?_).trans List.filterMap_some)
    exact permissionPairLoad_save q

/-! ## The broker with its access data -/

/-- The `meta` object of a node. -/
abbrev Metadata := AssocMap CString Json

/-- `VirtualDownstreamNode`. -/
inductive VirtualDownstreamNode
  | mk (permissionList : Option (List PermissionPair)) (childrenNode : List (CString × VirtualDownstreamNode))
      (metadata : Metadata)

namespace VirtualDownstreamNode

def permissionList : VirtualDownstreamNode → Option (List PermissionPair)
  | .mk permissionList _ _ => permissionList

def childrenNode : VirtualDownstreamNode → List (CString × VirtualDownstreamNode)
  | .mk _ childrenNode _ => childrenNode

def metadata : VirtualDownstreamNode → Metadata
  | .mk _ _ metadata => metadata

/-- `virtual_downstream_node_init`. -/
def init : VirtualDownstreamNode := .mk none [] .empty

end VirtualDownstreamNode

/-- The broker. `permissionList` and `metadata` are fields of the nodes, `groups` and `childrenPermissions` of
    downstream nodes; `permissionGroups` and `linkData` belong to the link of a downstream node. `listCache` and
    `listCaches` are the `updates_cache` of the list streams of a node, for a downstream node by remote path. -/
structure Site where
  base : Broker Json
  permissionList : NodeRef → Option (List PermissionPair)
  metadata : NodeRef → Metadata
  groups : DownId → Option Json
  childrenPermissions : DownId → List (CString × VirtualDownstreamNode)
  permissionGroups : DownId → List CString
  linkData : DownId → Option Json
  listCache : NodeId → Option Metadata
  listCaches : DownId → AssocMap CString Metadata

/-- The names a walk along `path` looks up: each round of `strstr(path, "/")` takes the text before the slash,
    and the walk ends where no text is left. -/
def pathNamesFrom (name : CString) : CString → List CString
  | [] => if name = [] then [] else [name.reverse]
  | c :: rest => if c = slash then name.reverse :: pathNamesFrom [] rest else pathNamesFrom (c :: name) rest

def pathNames (path : CString) : List CString := pathNamesFrom [] path

/-! ## `get_permission` -/

/-- `groups` with `levels`. -/
abbrev Levels := List (CString × PermissionLevel)

/-- `get_current_permission`, with its result. -/
def getCurrentPermission (permissionList : List PermissionPair) : Levels → Levels × Bool
  | [] => ([], false)
  | (group, level) :: rest =>
    let after := getCurrentPermission permissionList rest
    match permissionList.find? (fun pair => pair.group = group ∨ pair.group = cstr "default") with
    | none => ((group, level) :: after.1, after.2)
    | some pair =>
      if level < pair.permission then
        if pair.permission = .config then ((group, .config) :: rest, true)
        else ((group, pair.permission) :: after.1, after.2)
      else ((group, level) :: after.1, after.2)

/-- The first block of both walks. -/
def readPermissionList (permissionList : Option (List PermissionPair)) (levels : Levels) : Levels × Bool :=
  match permissionList with
  | none => (levels, false)
  | some list => getCurrentPermission list levels

/-- `get_virtual_permission`. -/
def getVirtualPermission : List CString → VirtualDownstreamNode → Levels → Levels
  | [], node, levels => (readPermissionList node.permissionList levels).1
  | name :: names, node, levels =>
    let (levels, config) := readPermissionList node.permissionList levels
    if config then levels
    else
      match AssocMap.lookupIn name node.childrenNode with
      | none => levels
      | some child => getVirtualPermission names child levels

namespace Site

/-- `get_node_permission`. -/
def getNodePermission (σ : Site) : List CString → NodeRef → Levels → Option Levels
  | [], node, levels => some (readPermissionList (σ.permissionList node) levels).1
  | name :: names, node, levels =>
    let (levels, config) := readPermissionList (σ.permissionList node) levels
    if config then some levels
    else
      match node with
      | .downstream d =>
        match AssocMap.lookupIn name (σ.childrenPermissions d) with
        | none => some levels
        | some child => some (getVirtualPermission names child levels)
      | .regular n => do
        let regular ← σ.base.node.get n
        match regular.children.get name with
        | none => some levels
        | some child => getNodePermission σ names child levels

/-- The last loop of `get_permission`. -/
def maxLevel (levels : Levels) : PermissionLevel :=
  levels.foldl (fun maxLevel l => if maxLevel < l.2 then l.2 else maxLevel) .none

/-- `get_permission` for the link of `reqLink`. -/
def getPermission (σ : Site) (path : CString) (reqLink : DownId) : Option PermissionLevel :=
  match σ.permissionList (.regular σ.base.root) with
  | none => some .config
  | some _ =>
    if path.head? ≠ some slash then some .none
    else do
      let levels := (σ.permissionGroups reqLink).map (fun group => (group, PermissionLevel.none))
      let levels ← σ.getNodePermission (pathNames path.tail) (.regular σ.base.root) levels
      some (maxLevel levels)

end Site

/-! ## What `get_permission` returns is at most config -/

/-- No level is above config. -/
def Levels.Ok (levels : Levels) : Prop := ∀ l ∈ levels, l.2 ≤ .config

theorem Levels.Ok.current {permissionList : List PermissionPair} {levels : Levels} (h : levels.Ok) :
    Levels.Ok (getCurrentPermission permissionList levels).1 := by
  induction levels with
  | nil => exact h
  | cons l levels ih =>
    obtain ⟨group, level⟩ := l
    have hl := h _ List.mem_cons_self
    have hrest : Levels.Ok levels := fun l' hl' => h l' (List.mem_cons_of_mem _ hl')
    have cons {level' : PermissionLevel} {levels' : Levels} (hl' : level' ≤ .config) (hr : Levels.Ok levels') :
        Levels.Ok ((group, level') :: levels') := by
      rintro l' hl'mem
      rcases List.mem_cons.mp hl'mem with rfl | hmem
      · exact hl'
      · exact hr l' hmem
    simp only [getCurrentPermission]
    split
    · exact cons hl (ih hrest)
    · rename_i pair _
      split
      · split
        · exact cons (Nat.le_refl _) hrest
        · exact cons pair.le_config (ih hrest)
      · exact cons hl (ih hrest)

theorem Levels.Ok.readList {permissionList : Option (List PermissionPair)} {levels : Levels} (h : levels.Ok) :
    Levels.Ok (readPermissionList permissionList levels).1 := by
  cases permissionList with
  | none => exact h
  | some list => exact h.current

theorem Levels.Ok.virtual {names : List CString} {node : VirtualDownstreamNode} {levels : Levels} (h : levels.Ok) :
    Levels.Ok (getVirtualPermission names node levels) := by
  induction names generalizing node levels with
  | nil => exact h.readList
  | cons name names ih =>
    simp only [getVirtualPermission]
    split
    · exact h.readList
    · split
      · exact h.readList
      · exact ih h.readList

namespace Site

variable {σ : Site}

theorem getNodePermission_ok {names : List CString} {node : NodeRef} {levels levels' : Levels} (h : levels.Ok)
    (hget : σ.getNodePermission names node levels = some levels') : levels'.Ok := by
  induction names generalizing node levels with
  | nil =>
    obtain rfl := Option.some.inj hget
    exact h.readList
  | cons name names ih =>
    simp only [getNodePermission] at hget
    split at hget
    · obtain rfl := Option.some.inj hget
      exact h.readList
    · split at hget
      · split at hget
        · obtain rfl := Option.some.inj hget
          exact h.readList
        · obtain rfl := Option.some.inj hget
          exact h.readList.virtual
      · simp only [Option.bind_eq_bind, Option.bind_eq_some_iff] at hget
        obtain ⟨regular, -, hget⟩ := hget
        split at hget
        · obtain rfl := Option.some.inj hget
          exact h.readList
        · exact ih h.readList hget

theorem maxLevel_le {levels : Levels} (h : levels.Ok) : maxLevel levels ≤ .config := by
  suffices ∀ m : PermissionLevel, m ≤ .config →
      levels.foldl (fun maxLevel l => if maxLevel < l.2 then l.2 else maxLevel) m ≤ .config from
    this .none (by decide)
  induction levels with
  | nil => exact fun m hm => hm
  | cons l levels ih =>
    intro m hm
    apply ih (fun l' hl' => h l' (List.mem_cons_of_mem _ hl'))
    show (if m < l.2 then l.2 else m) ≤ .config
    split
    · exact h l List.mem_cons_self
    · exact hm

theorem getPermission_le {path : CString} {reqLink : DownId} {level : PermissionLevel}
    (h : σ.getPermission path reqLink = some level) : level ≤ .config := by
  unfold getPermission at h
  split at h
  · obtain rfl := Option.some.inj h
    exact Nat.le_refl _
  · split at h
    · obtain rfl := Option.some.inj h
      decide
    · simp only [Option.bind_eq_bind, Option.bind_eq_some_iff] at h
      obtain ⟨levels, hlevels, h⟩ := h
      obtain rfl := Option.some.inj h
      refine maxLevel_le (getNodePermission_ok ?_ hlevels)
      rintro l hl
      obtain ⟨group, -, rfl⟩ := List.mem_map.mp hl
      exact Nat.zero_le _

end Site

end DSLink
