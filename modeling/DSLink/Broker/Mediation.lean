import DSLink.Broker.Attribute
import DSLink.Broker.PermissionMax

/-!
# `Broker.Mediation` — who may set and remove attributes

The owner of an attribute is the node at the path before its last segment. `broker_msg_check_set_arrtribtues` asks for
the permission there, `broker_msg_handle_remove` for the one on the path with the attribute. The two part where a
node or virtual node is called like the attribute and has a list of its own, and at the root, whose path before
the last segment is the empty text.

## Contents
- `setPermissionList`: how lists come to nodes and virtual nodes.
- `afterHandled`, `afterRemoved`, `Mediated`: what the two handlers do to the metadata of the owner.
- `Grants`, `attribute_mediation`.
-/

namespace DSLink

/-! ## `set_permission_list` -/

/-- `set_virtual_permission_list`. -/
def setVirtualPermissionList (permissions : Option (List PermissionPair)) :
    List CString → VirtualDownstreamNode → VirtualDownstreamNode
  | [], node => .mk permissions node.childrenNode node.metadata
  | name :: names, node =>
    let child := (AssocMap.lookupIn name node.childrenNode).getD .init
    .mk node.permissionList
      (AssocMap.setIn name (setVirtualPermissionList permissions names child) node.childrenNode) node.metadata

namespace Site

/-- `set_node_permission_list`, with whether it returns 0. -/
def setNodePermissionList (σ : Site) (permissions : Option (List PermissionPair)) :
    List CString → NodeRef → Option (Site × Bool)
  | [], node => some ({ σ with permissionList := Function.update σ.permissionList node permissions }, true)
  | name :: names, .downstream d =>
    let child := (AssocMap.lookupIn name (σ.childrenPermissions d)).getD .init
    let children := AssocMap.setIn name (setVirtualPermissionList permissions names child) (σ.childrenPermissions d)
    some ({ σ with childrenPermissions := Function.update σ.childrenPermissions d children }, true)
  | name :: names, .regular n => do
    let regular ← σ.base.node.get n
    match regular.children.get name with
    | none => some (σ, false)
    | some child => setNodePermissionList σ permissions names child

/-- `set_permission_list`, with whether it returns 0. Behind the end of an empty path there is nothing to read. -/
def setPermissionList (σ : Site) (path : CString) (reqLink : DownId) (json : Json) : Option (Site × Bool) :=
  match json with
  | .array _ => do
    let level ← σ.getPermission path reqLink
    if level ≠ .config then some (σ, false)
    else
      let rest ← path.tail?
      σ.setNodePermissionList (permissionListLoad json) (pathNames rest) (.regular σ.base.root)
  | _ => some (σ, false)

/-! ## The metadata of the owner -/

/-- The access data after a set request. A value that is set and nodes that are created have no part in the metadata
    of a node that is there already. -/
def afterHandled (σ : Site) (handled : Handled) : Site :=
  match handled.effect with
  | .attribute node name value => σ.setAttribute node name (some value)
  | _ => σ

/-- The access data after a remove request. -/
def afterRemoved (σ : Site) (effect : RemoveEffect) : Site :=
  match effect with
  | .attribute node name => σ.setAttribute node name none
  | _ => σ

/-- What the local or virtual node at the path `p` has in its metadata. -/
def ownerMember (σ : Site) (p k : CString) : Option Json :=
  match σ.base.brokerNodeGet p with
  | some (some (.regular n, _)) => (σ.metadata (.regular n)).get k
  | some (some (.downstream d, out)) => σ.attributeAt d (pathNames out) k
  | _ => none

/-- The path of the node at `p`; the empty path is looked up as the root. -/
def ownerPath (p : CString) : CString := if p = [] then [slash] else p

/-- The link has write permission on `path`, and the request permits it. -/
def MayWrite (σ : Site) (L : DownId) (req : Json) (path : CString) : Prop :=
  ∃ level, σ.permissionOnPath L req path = some level ∧ .write ≤ level

/-- The handler gets to the block that sets the attribute. -/
def TakesSet (σ : Site) (L : DownId) (req : Json) : Prop :=
  ∃ handled node name value, σ.brokerMsgHandleSet L req = some handled ∧
    handled.effect = .attribute node name value

/-- The handler gets to the block that removes the attribute. -/
def TakesRemove (σ : Site) (L : DownId) (req : Json) : Prop :=
  ∃ node name, σ.brokerMsgHandleRemove L req = some (.attribute node name)

/-- A set and a remove request for an attribute of the node at `p` change the metadata of that node only with write
    permission on it, and are allowed for the same links. -/
structure Mediated (σ : Site) (L : DownId) (p : CString) (setReq removeReq : Json) : Prop where
  set : ∀ handled k, σ.brokerMsgHandleSet L setReq = some handled →
    (σ.afterHandled handled).ownerMember p k ≠ σ.ownerMember p k → σ.MayWrite L setReq (ownerPath p)
  remove : ∀ effect k, σ.brokerMsgHandleRemove L removeReq = some effect →
    (σ.afterRemoved effect).ownerMember p k ≠ σ.ownerMember p k → σ.MayWrite L removeReq (ownerPath p)
  same : σ.TakesSet L setReq ↔ σ.TakesRemove L removeReq

/-! ## Which lists decide -/

/-- Some list on the path gives some group of the link write permission. -/
def Grants (σ : Site) (L : DownId) (path : CString) : Prop :=
  ∃ g ∈ σ.permissionGroups L, ∃ list ∈ σ.pathLists path, .write ≤ levelFor g list

variable {σ : Site} {L : DownId}

theorem write_le_getPermission {list : List PermissionPair} {path : CString} {level : PermissionLevel}
    (hroot : σ.permissionList (.regular σ.base.root) = some list) (hpath : path.head? = some slash)
    (h : σ.getPermission path L = some level) : .write ≤ level ↔ σ.Grants L path := by
  have hhigh := getPermission_highest hroot hpath h
  constructor
  · intro hw
    rcases hhigh.attained with ⟨g, hg, l, hl, rfl⟩ | ⟨-, rfl⟩
    · exact ⟨g, hg, l, hl, hw⟩
    · exact absurd hw (by decide)
  · rintro ⟨g, hg, l, hl, hw⟩
    exact PermissionLevel.le_trans hw (hhigh.bound g hg l hl)

theorem pathNamesFrom_append_prefix (a b name : CString) :
    ∃ more, pathNamesFrom name (a ++ slash :: b) = pathNamesFrom name a ++ more := by
  induction a generalizing name with
  | nil =>
    show ∃ more, pathNamesFrom name (slash :: b) = (if name = [] then [] else [name.reverse]) ++ more
    rw [pathNamesFrom, if_pos rfl]
    split
    · exact ⟨_, rfl⟩
    · exact ⟨pathNamesFrom [] b, rfl⟩
  | cons c a ih =>
    simp only [List.cons_append, pathNamesFrom]
    split
    · obtain ⟨more, hmore⟩ := ih []
      exact ⟨more, by rw [hmore, List.cons_append]⟩
    · exact ih (c :: name)

/-- The lists on the way to the owner are on the way to the attribute. -/
theorem Grants.append {p : CString} (h : σ.Grants L p) (hp : p ≠ []) (name : CString) :
    σ.Grants L (p ++ slash :: name) := by
  obtain ⟨g, hg, list, hlist, hw⟩ := h
  refine ⟨g, hg, list, ?_, hw⟩
  obtain ⟨c, p, rfl⟩ := List.exists_cons_of_ne_nil hp
  obtain ⟨more, hmore⟩ := pathNamesFrom_append_prefix p name []
  show list ∈ σ.metLists (pathNames (p ++ slash :: name)) _
  rw [pathNames, hmore]
  exact metLists_append _ more _ hlist

theorem write_le_cap {a b : PermissionLevel} : .write ≤ a.cap b ↔ .write ≤ a ∧ .write ≤ b := by
  constructor
  · intro h
    exact ⟨PermissionLevel.le_trans h (a.cap_le_left b), PermissionLevel.le_trans h (a.cap_le_right b)⟩
  · rintro ⟨ha, hb⟩
    exact PermissionLevel.le_cap ha hb

/-- Without a list at the root every link has config permission. -/
theorem mayWrite_open (hroot : σ.permissionList (.regular σ.base.root) = none) (req : Json) (path : CString) :
    σ.MayWrite L req path ↔ .write ≤ maxPermit req := by
  unfold MayWrite permissionOnPath
  simp only [getPermission, hroot, Option.bind_eq_bind, Option.bind_some, Option.some.injEq, exists_eq_left',
    write_le_cap]
  exact and_iff_right (by decide)

theorem mayWrite_outside {list : List PermissionPair} (hroot : σ.permissionList (.regular σ.base.root) = some list)
    (req : Json) {path : CString} (hpath : path.head? ≠ some slash) : ¬σ.MayWrite L req path := by
  unfold MayWrite permissionOnPath
  simp only [getPermission, hroot, hpath, ne_eq, not_false_eq_true, if_true, Option.bind_eq_bind, Option.bind_some,
    Option.some.injEq, exists_eq_left', write_le_cap]
  rintro ⟨h, -⟩
  exact absurd h (by decide)

theorem mayWrite_listed (hlive : σ.base.ChildrenLive) {list : List PermissionPair}
    (hroot : σ.permissionList (.regular σ.base.root) = some list) (req : Json) {path : CString}
    (hpath : path.head? = some slash) : σ.MayWrite L req path ↔ σ.Grants L path ∧ .write ≤ maxPermit req := by
  obtain ⟨level, hlevel⟩ := Option.isSome_iff_exists.mp (getPermission_isSome hlive path L)
  unfold MayWrite permissionOnPath
  simp only [hlevel, Option.bind_eq_bind, Option.bind_some, Option.some.injEq, exists_eq_left', write_le_cap,
    write_le_getPermission hroot hpath hlevel]

/-! ## What the handlers ask for -/

theorem brokerNodeGetLoop_isSome {J : Type} {σ : Broker J} (hlive : σ.ChildrenLive) (fuel : Nat) {n : NodeId}
    (hn : (σ.node.get n).isSome) (path : CString) : (σ.brokerNodeGetLoop fuel n path).isSome := by
  induction fuel generalizing n path with
  | zero => rfl
  | succ fuel ih =>
    obtain ⟨node, hnode⟩ := Option.isSome_iff_exists.mp hn
    rw [Broker.brokerNodeGetLoop]
    split
    · rfl
    · dsimp only
      split
      · rename_i name rest _
        simp only [hnode, Option.bind_eq_bind, Option.bind_some]
        split
        · rfl
        · rfl
        · rename_i c hchild
          exact ih (hlive.child n node name c hnode hchild) rest
      · rfl
      · simp only [hnode, Option.bind_eq_bind, Option.bind_some]
        split <;> rfl

theorem brokerNodeGet_isSome {J : Type} {σ : Broker J} (hlive : σ.ChildrenLive) (path : CString) :
    (σ.brokerNodeGet path).isSome := brokerNodeGetLoop_isSome hlive path.length hlive.root path

theorem permissionOnPath_isSome (hlive : σ.base.ChildrenLive) (req : Json) (path : CString) :
    (σ.permissionOnPath L req path).isSome := by
  obtain ⟨level, hlevel⟩ := Option.isSome_iff_exists.mp (getPermission_isSome hlive path L)
  simp only [permissionOnPath, hlevel, Option.bind_eq_bind, Option.bind_some, Option.isSome_some]

/-- A set request for an attribute gets to its block with write permission on the path before the attribute. -/
theorem takesSet_iff (hlive : σ.base.ChildrenLive) {p name : CString} {req rid value : Json}
    (hpath : requestPath req = some (p ++ slash :: name)) (hrid : req.get (cstr "rid") = some rid)
    (hname : name.head? = some 64) (hslash : slash ∉ name) (hvalue : req.get (cstr "value") = some value) :
    σ.TakesSet L req ↔ σ.MayWrite L req p := by
  obtain ⟨node, hnode⟩ := Option.isSome_iff_exists.mp (brokerNodeGet_isSome hlive p)
  obtain ⟨level, hlevel⟩ := Option.isSome_iff_exists.mp (permissionOnPath_isSome (L := L) hlive req p)
  have hcheck : σ.brokerMsgCheckSetAttributes L req (p ++ slash :: name)
      = if level < .write then some .denied else some (.set node name value) := by
    have hmem : ¬slash ∉ p ++ slash :: name := not_not_intro (by simp)
    have hat : ¬(lastSegment (p ++ slash :: name)).head? ≠ some 64 := by
      rw [lastSegment_append hslash]
      exact not_not_intro hname
    rw [brokerMsgCheckSetAttributes, if_neg hmem, if_neg hat, hvalue]
    simp only [parentPath_append hslash, hnode, hlevel, Option.bind_eq_bind, Option.bind_some,
      lastSegment_append hslash]
  have hhandle : σ.brokerMsgHandleSet L req = (if level < .write then
        (σ.setValue L req (p ++ slash :: name)).bind (fun handled =>
          some { handled with replies := some (cstr "permissionDenied") :: handled.replies })
      else some ⟨[none], .attribute node name value⟩) := by
    have hreq : (req.get (cstr "path")).bind Json.stringValue = some (p ++ slash :: name) := hpath
    unfold brokerMsgHandleSet
    simp only [hreq, hrid, hcheck, Option.bind_eq_bind]
    split <;> rfl
  unfold TakesSet MayWrite
  rw [hhandle, hlevel]
  by_cases hlt : level < .write
  · rw [if_pos hlt]
    constructor
    · rintro ⟨handled, target, key, v, h, he⟩
      obtain ⟨inner, hinner, h⟩ := Option.bind_eq_some_iff.mp h
      obtain rfl := Option.some.inj h
      exact absurd he (setValue_not_attribute hinner target key v)
    · rintro ⟨level', h, hw⟩
      obtain rfl := Option.some.inj h
      exact absurd hw (Nat.not_le.mpr hlt)
  · rw [if_neg hlt]
    have hle := PermissionLevel.le_of_not_lt hlt
    exact ⟨fun _ => ⟨level, rfl, hle⟩, fun _ => ⟨_, node, name, value, rfl, rfl⟩⟩

/-- A remove request gets to its block with write permission on the path with the attribute. -/
theorem takesRemove_iff (hlive : σ.base.ChildrenLive) {p name : CString} {req rid : Json}
    (hpath : requestPath req = some (p ++ slash :: name)) (hrid : req.get (cstr "rid") = some rid)
    (hname : name.head? = some 64) (hslash : slash ∉ name) :
    σ.TakesRemove L req ↔ σ.MayWrite L req (p ++ slash :: name) := by
  obtain ⟨node, hnode⟩ := Option.isSome_iff_exists.mp (brokerNodeGet_isSome hlive p)
  obtain ⟨level, hlevel⟩ :=
    Option.isSome_iff_exists.mp (permissionOnPath_isSome (L := L) hlive req (p ++ slash :: name))
  have hmem : ¬slash ∉ p ++ slash :: name := not_not_intro (by simp)
  have hat : ¬(lastSegment (p ++ slash :: name)).head? ≠ some 64 := by
    rw [lastSegment_append hslash]
    exact not_not_intro hname
  have hhandle : σ.brokerMsgHandleRemove L req =
      if level < .write then some (.closed (cstr "permissionDenied")) else some (.attribute node name) := by
    unfold brokerMsgHandleRemove
    simp only [hpath, hrid]
    rw [if_neg hmem, if_neg hat]
    simp only [parentPath_append hslash, hnode, hlevel, Option.bind_eq_bind, Option.bind_some,
      lastSegment_append hslash]
  unfold TakesRemove MayWrite
  rw [hhandle, hlevel]
  by_cases hlt : level < .write
  · rw [if_pos hlt]
    constructor
    · rintro ⟨target, key, h⟩
      cases h
    · rintro ⟨level', h, hw⟩
      obtain rfl := Option.some.inj h
      exact absurd hw (Nat.not_le.mpr hlt)
  · rw [if_neg hlt]
    exact ⟨fun _ => ⟨level, rfl, PermissionLevel.le_of_not_lt hlt⟩, fun _ => ⟨node, name, rfl⟩⟩

/-! ## The condition -/

/-- No list but those on the way to the owner decides whether the link may write; the owner is not the root. -/
def OwnerDecides (σ : Site) (L : DownId) (permit : PermissionLevel) (p name : CString) : Prop :=
  permit < .write ∨ σ.permissionList (.regular σ.base.root) = none ∨ (p ++ slash :: name).head? ≠ some slash ∨
    ¬σ.Grants L (p ++ slash :: name) ∨ p ≠ [] ∧ σ.Grants L p

theorem ownerMember_afterHandled {handled : Handled} {p k : CString}
    (h : (σ.afterHandled handled).ownerMember p k ≠ σ.ownerMember p k) :
    ∃ node name value, handled.effect = .attribute node name value := by
  obtain ⟨replies, effect⟩ := handled
  rcases effect with _ | ⟨node, name, value⟩ | _ | _ | _
  · exact absurd rfl h
  · exact ⟨node, name, value, rfl⟩
  all_goals exact absurd rfl h

theorem ownerMember_afterRemoved {effect : RemoveEffect} {p k : CString}
    (h : (σ.afterRemoved effect).ownerMember p k ≠ σ.ownerMember p k) :
    ∃ node name, effect = .attribute node name := by
  rcases effect with _ | _ | ⟨node, name⟩
  · exact absurd rfl h
  · exact absurd rfl h
  · exact ⟨node, name, rfl⟩

/-- Write permission on the path that the check for set requests looks at is write permission on the owner. -/
theorem MayWrite.owner {req : Json} {p : CString} (h : σ.MayWrite L req p) : σ.MayWrite L req (ownerPath p) := by
  unfold ownerPath
  split
  · rename_i hp
    subst hp
    cases hroot : σ.permissionList (.regular σ.base.root) with
    | none => exact (mayWrite_open hroot req _).mpr ((mayWrite_open hroot req _).mp h)
    | some list => exact absurd h (mayWrite_outside hroot req (by simp))
  · exact h

/-- The two paths give the same answer exactly where the owner decides. -/
theorem same_iff (hlive : σ.base.ChildrenLive) (p name : CString) {setReq removeReq : Json}
    (hpermit : maxPermit setReq = maxPermit removeReq) :
    (σ.MayWrite L setReq p ↔ σ.MayWrite L removeReq (p ++ slash :: name)) ↔
      σ.OwnerDecides L (maxPermit removeReq) p name := by
  unfold OwnerDecides
  cases hroot : σ.permissionList (.regular σ.base.root) with
  | none =>
    rw [mayWrite_open hroot, mayWrite_open hroot, hpermit]
    simp
  | some list =>
    have hlt : maxPermit removeReq < .write ↔ ¬PermissionLevel.write ≤ maxPermit removeReq := Nat.not_le.symm
    by_cases hpath : (p ++ slash :: name).head? = some slash
    · rw [mayWrite_listed hlive hroot removeReq hpath, hlt]
      by_cases hp : p = []
      · have hno : ¬σ.MayWrite L setReq p := mayWrite_outside hroot setReq (by simp [hp])
        have hempty : ¬(p ≠ [] ∧ σ.Grants L p) := fun h => h.1 hp
        simp only [hno, hpath, hempty, ne_eq, not_true_eq_false, or_false, reduceCtorEq, false_or, false_iff]
        tauto
      · have hhead : p.head? = some slash := by
          rwa [List.head?_append_of_ne_nil p hp] at hpath
        have hsub : σ.Grants L p → σ.Grants L (p ++ slash :: name) := fun h => h.append hp name
        rw [mayWrite_listed hlive hroot setReq hhead, hpermit]
        simp only [hpath, hp, ne_eq, not_true_eq_false, not_false_eq_true, true_and, reduceCtorEq, false_or]
        tauto
    · have hhead : p.head? ≠ some slash := by
        cases p with
        | nil => exact absurd rfl hpath
        | cons c p => exact hpath
      have hno := mayWrite_outside (L := L) hroot setReq hhead
      have hno' := mayWrite_outside (L := L) hroot removeReq hpath
      exact ⟨fun _ => .inr (.inr (.inl hpath)), fun _ => ⟨fun h => absurd h hno, fun h => absurd h hno'⟩⟩

/-- A set and a remove request with one permit for the attribute `name` of the node at `p`: both change the metadata of
    that node only with write permission on it and are allowed for the same links, if and only if the owner
    decides. -/
theorem attribute_mediation (hlive : σ.base.ChildrenLive) {p name : CString} {setReq removeReq rid rid' value : Json}
    (hname : name.head? = some 64) (hslash : slash ∉ name) (hset : requestPath setReq = some (p ++ slash :: name))
    (hremove : requestPath removeReq = some (p ++ slash :: name)) (hrid : setReq.get (cstr "rid") = some rid)
    (hrid' : removeReq.get (cstr "rid") = some rid') (hvalue : setReq.get (cstr "value") = some value)
    (hpermit : maxPermit setReq = maxPermit removeReq) :
    σ.Mediated L p setReq removeReq ↔ σ.OwnerDecides L (maxPermit removeReq) p name := by
  have hsetIff := takesSet_iff (L := L) hlive hset hrid hname hslash hvalue
  have hremoveIff := takesRemove_iff (L := L) hlive hremove hrid' hname hslash
  have hsame := same_iff (L := L) hlive p name hpermit
  rw [← hsetIff, ← hremoveIff] at hsame
  have howner : σ.MayWrite L setReq (ownerPath p) → σ.MayWrite L removeReq (ownerPath p) := by
    unfold MayWrite permissionOnPath
    rw [hpermit]
    exact id
  constructor
  · exact fun h => hsame.mp h.same
  · intro h
    refine ⟨?_, ?_, hsame.mpr h⟩
    · rintro handled k hhandled hchange
      obtain ⟨node, key, v, he⟩ := ownerMember_afterHandled hchange
      exact (hsetIff.mp ⟨handled, node, key, v, hhandled, he⟩).owner
    · rintro effect k heffect hchange
      obtain ⟨node, key, rfl⟩ := ownerMember_afterRemoved hchange
      have htakes : σ.TakesSet L setReq := (hsame.mpr h).mpr ⟨node, key, heffect⟩
      exact howner (hsetIff.mp htakes).owner

/-! ## A list on the node that is called like the attribute -/

/-- A broker on which everybody may read, and the link `x` is an administrator. -/
def adminSite (base : Broker Json) : Site :=
  { openSite base .read (by decide) with
    permissionList := fun ref =>
      if ref = .regular base.root then
        some [⟨cstr "admin", .config, by decide⟩, ⟨cstr "default", .read, by decide⟩]
      else none
    permissionGroups := fun d => if d = 1 then [cstr "admin"] else [cstr "r"] }

/-- The list that everybody may write. -/
def writeList : Json := .array [.array [.string (cstr "default"), .string (cstr "write")]]

/-- A set or remove request for the attribute `@a` of the link `x`. -/
def linkAttribute : Json := pathRequest "/downstream/x/@a" none

/-- The administrator sets the attribute, and puts a list on the virtual node `@a` below the link. -/
def listedAttribute (base : Broker Json) : Option Site := do
  let handled ← (adminSite base).brokerMsgHandleSet 1 linkAttribute
  let (σ, set) ← ((adminSite base).afterHandled handled).setPermissionList (cstr "/downstream/x/@a") 1 writeList
  if set then some σ else none

/-- What a remove request of the link `r` does, if the handler gets that far. -/
def removedBy (σ : Site) (req : Json) : Option Site :=
  (σ.brokerMsgHandleRemove 0 req).map σ.afterRemoved

/-- The link `r` may only read the link `x`, and its remove request takes the attribute away. -/
def removedByReader (σ : Site) : Bool :=
  decide (σ.permissionOnPath 0 linkAttribute (cstr "/downstream/x") = some .read) &&
    ((σ.ownerMember (cstr "/downstream/x") (cstr "@a")).isSome &&
      (removedBy σ linkAttribute).any (fun σ' => (σ'.ownerMember (cstr "/downstream/x") (cstr "@a")).isNone))

theorem attribute_mediation_admin : ∃ (σ : Site) (permit : PermissionLevel),
    Reach (Broker.step Broker.smallConfig) (fun _ _ => True) (fun base => Broker.brokerInit = some base) σ.base ∧
      (σ.Mediated 0 (cstr "/downstream/x") linkAttribute linkAttribute ↔
        σ.OwnerDecides 0 permit (cstr "/downstream/x") (cstr "@a")) := by
  obtain ⟨base, hreach, hlive⟩ := Reach.of_eval (Broker.step Broker.smallConfig) Broker.brokerInit twoLinks
    Broker.childrenLive (by decide)
  have hat : (cstr "@a").head? = some 64 := by decide
  have htree : (adminSite base).base.ChildrenLive := .of_childrenLive hlive
  exact ⟨adminSite base, _, hreach, attribute_mediation htree hat (by decide) rfl rfl rfl rfl rfl rfl⟩

/-- The link `r` has no write permission on the link `x` and removes an attribute of it. -/
theorem attribute_not_mediated : ∃ base σ : _, Reach (Broker.step Broker.smallConfig) (fun _ _ => True)
    (fun base => Broker.brokerInit = some base) base ∧ listedAttribute base = some σ ∧
      ¬σ.Mediated 0 (cstr "/downstream/x") linkAttribute linkAttribute := by
  obtain ⟨base, hreach, hcheck⟩ := Reach.of_eval (Broker.step Broker.smallConfig) Broker.brokerInit twoLinks
    (fun base => (listedAttribute base).any removedByReader) (by decide)
  obtain ⟨σ, hσ, hcheck⟩ := (Option.any_eq_true _ _).mp hcheck
  simp only [removedByReader, Bool.and_eq_true, decide_eq_true_eq] at hcheck
  obtain ⟨hread, hset, hremoved⟩ := hcheck
  obtain ⟨σ', hσ', hnone⟩ := (Option.any_eq_true _ _).mp hremoved
  obtain ⟨effect, heffect, rfl⟩ := Option.map_eq_some_iff.mp hσ'
  refine ⟨base, σ, hreach, hσ, fun h => ?_⟩
  have hchange : (σ.afterRemoved effect).ownerMember (cstr "/downstream/x") (cstr "@a")
      ≠ σ.ownerMember (cstr "/downstream/x") (cstr "@a") := by
    intro he
    rw [← he, Option.isNone_iff_eq_none.mp hnone] at hset
    cases hset
  obtain ⟨level, hlevel, hw⟩ := h.remove effect (cstr "@a") heffect hchange
  rw [show ownerPath (cstr "/downstream/x") = cstr "/downstream/x" from if_neg (by decide), hread] at hlevel
  obtain rfl := Option.some.inj hlevel
  exact absurd hw (by decide)

end Site

end DSLink
