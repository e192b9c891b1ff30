import DSLink.Broker.Conns

/-!
# `Broker.ConnsJson` — what a restart makes of `conns.json`

The writer puts the metadata, the permission list and the virtual nodes below a node into one object, and the reader
tells them apart by the first character of the key. The writer is given by what it has under each key, the reader by
what a node has after it.

## Contents
- `loaded_spec`, `save_spec`, and `Back`, where both meet.
- `Plain`: the nodes that come back. `conns_json_exact`.
- `conns_restart_settles`: a second restart changes nothing.
- `Event.Scheduled`, `conns_durable`: what is on the disk while no save is pending.
-/

namespace DSLink.Conns

open DataTree (isMetaKey)

variable {node node' child t t' b : VirtualDownstreamNode} {name key : CString} {names : List CString}
  {members : Object} {nodes : AssocMap CString DownstreamNode} {n n' : DownstreamNode}

/-! ## The reader -/

/-- A key that is loaded as a virtual node. -/
def isChildKey (key : CString) : Bool := !isOtherKey key && !isMetaKey key

theorem isChildKey_eq_false (h : isChildKey key = false) : isOtherKey key = true ∨ isMetaKey key = true := by
  unfold isChildKey at h
  cases ho : isOtherKey key with
  | true => exact .inl rfl
  | false =>
    rw [ho] at h
    exact .inr (by simpa using h)

theorem isChildKey_other (h : isOtherKey key = true) : isChildKey key = false := by simp [isChildKey, h]

theorem isChildKey_meta (h : isMetaKey key = true) : isChildKey key = false := by simp [isChildKey, h]

theorem isOtherKey_not_meta (h : isOtherKey key = true) : isMetaKey key = false := by
  have h : key.head? = some 63 := by simpa [isOtherKey] using h
  simp [isMetaKey, h]

/-- What a node has after its members were read: metadata under the keys of metadata, the permission list, and a
    virtual node under each key of one. -/
structure Loaded (node node' : VirtualDownstreamNode) (members : Object) : Prop where
  metadata : ∀ key, node'.metadata.get key =
    (if isMetaKey key then AssocMap.lookupIn key members else none).or (node.metadata.get key)
  list : node'.permissionList =
    ((AssocMap.lookupIn (cstr "?permissions") members).map permissionListLoad).getD node.permissionList
  child : ∀ name, AssocMap.lookupIn name node'.childrenNode =
    (if isChildKey name then (AssocMap.lookupIn name members).map loadVirtual else none).or
      (AssocMap.lookupIn name node.childrenNode)

theorem loaded_spec (members : Object) (hn : (members.map Prod.fst).Nodup) (node : VirtualDownstreamNode) :
    Loaded node (loadVirtualMembers node members) members := by
  induction members generalizing node with
  | nil =>
    rw [loadVirtualMembers]
    exact ⟨fun key => by simp [AssocMap.lookupIn], rfl, fun name => by simp [AssocMap.lookupIn]⟩
  | cons e rest ih =>
    obtain ⟨key, value⟩ := e
    obtain ⟨hkey, hrest⟩ := List.nodup_cons.mp hn
    have hnone : AssocMap.lookupIn key rest = none := AssocMap.lookupIn_eq_none hkey
    rw [loadVirtualMembers]
    by_cases hother : isOtherKey key = true
    · rw [if_pos hother]
      set node1 := if key = cstr "?permissions" then
        VirtualDownstreamNode.mk (permissionListLoad value) node.childrenNode node.metadata else node with hnode1
      have hmeta1 : node1.metadata = node.metadata := by
        rw [hnode1]
        split <;> rfl
      have hchild1 : node1.childrenNode = node.childrenNode := by
        rw [hnode1]
        split <;> rfl
      have hl := ih hrest node1
      refine ⟨fun k => ?_, ?_, fun name => ?_⟩
      · rw [hl.metadata, hmeta1, AssocMap.lookupIn]
        by_cases hk : key = k
        · subst hk
          rw [isOtherKey_not_meta hother]
          rfl
        · rw [if_neg hk]
      · rw [hl.list, hnode1, AssocMap.lookupIn]
        by_cases hp : key = cstr "?permissions"
        · rw [if_pos hp, if_pos hp, ← hp, hnone]
          rfl
        · rw [if_neg hp, if_neg hp]
      · rw [hl.child, hchild1, AssocMap.lookupIn]
        by_cases hk : key = name
        · subst hk
          rw [isChildKey_other hother]
          rfl
        · rw [if_neg hk]
    · rw [if_neg hother]
      have hne : key ≠ cstr "?permissions" := by
        rintro rfl
        exact hother (by decide)
      by_cases hmeta : isMetaKey key = true
      · rw [if_pos hmeta]
        have hl := ih hrest (setMeta node key value)
        refine ⟨fun k => ?_, ?_, fun name => ?_⟩
        · rw [hl.metadata, AssocMap.lookupIn,
            show (setMeta node key value).metadata = node.metadata.set key value from rfl, AssocMap.get_set]
          by_cases hk : key = k
          · subst hk
            simp [hmeta, hnone]
          · rw [if_neg hk, if_neg (Ne.symm hk)]
        · rw [hl.list, AssocMap.lookupIn, if_neg hne]
          rfl
        · rw [hl.child, AssocMap.lookupIn]
          by_cases hk : key = name
          · subst hk
            rw [isChildKey_meta hmeta]
            rfl
          · rw [if_neg hk]
            rfl
      · rw [if_neg hmeta]
        have hchild : isChildKey key = true := by simp [isChildKey, hother, hmeta]
        have hl := ih hrest (.mk node.permissionList (AssocMap.setIn key (loadVirtual value) node.childrenNode) node.metadata)
        refine ⟨fun k => ?_, ?_, fun name => ?_⟩
        · rw [hl.metadata, AssocMap.lookupIn]
          by_cases hk : key = k
          · subst hk
            rw [if_neg hmeta, if_neg hmeta]
            rfl
          · rw [if_neg hk]
            rfl
        · rw [hl.list, AssocMap.lookupIn, if_neg hne]
          rfl
        · rw [hl.child, AssocMap.lookupIn]
          show (_ : Option _).or (AssocMap.lookupIn name (AssocMap.setIn key _ node.childrenNode)) = _
          rw [AssocMap.lookupIn_setIn]
          by_cases hk : key = name
          · subst hk
            simp [hchild, hnone]
          · rw [if_neg hk, if_neg (Ne.symm hk)]

/-! ## The writer -/

/-- The loop over the virtual nodes writes one member for each. -/
theorem saveVirtualNodes_spec (children : List (CString × VirtualDownstreamNode)) (members : Object)
    (hm : (members.map Prod.fst).Nodup) (hc : (children.map Prod.fst).Nodup) :
    ∃ members', saveVirtualNodes (.object members) children = .object members' ∧ (members'.map Prod.fst).Nodup ∧
      ∀ key, AssocMap.lookupIn key members' =
        ((AssocMap.lookupIn key children).map saveObject).or (AssocMap.lookupIn key members) := by
  induction children generalizing members with
  | nil =>
    rw [saveVirtualNodes]
    exact ⟨members, rfl, hm, fun key => rfl⟩
  | cons e rest ih =>
    obtain ⟨name, c⟩ := e
    obtain ⟨hname, hrest⟩ := List.nodup_cons.mp hc
    have hnone : AssocMap.lookupIn name rest = none := AssocMap.lookupIn_eq_none hname
    rw [saveVirtualNodes, Json.set_object]
    obtain ⟨members', heq, hn, hlookup⟩ := ih _ (AssocMap.nodup_setIn hm) hrest
    refine ⟨members', heq, hn, fun key => ?_⟩
    rw [hlookup, AssocMap.lookupIn_setIn, AssocMap.lookupIn]
    by_cases hk : name = key
    · subst hk
      simp [hnone]
    · rw [if_neg hk, if_neg (Ne.symm hk)]

/-- What is written under a key for the node itself. -/
def fieldAt (node : VirtualDownstreamNode) (key : CString) : Option Json :=
  if key = cstr "?permissions" then (permissionListSave node.permissionList).or (node.metadata.get key)
  else node.metadata.get key

/-- The members that are written for a node. -/
def Written (t : VirtualDownstreamNode) (members : Object) : Prop :=
  saveObject t = .object members ∧ (members.map Prod.fst).Nodup ∧ ∀ key, AssocMap.lookupIn key members =
    ((AssocMap.lookupIn key t.childrenNode).map saveObject).or (fieldAt t key)

theorem save_spec (h : (t.childrenNode.map Prod.fst).Nodup) : ∃ members, Written t members := by
  cases t with
  | mk list children metadata =>
    obtain ⟨fields, hfields, hn, hlookup⟩ : ∃ fields, savePermissions list (.object metadata.entries) = .object fields ∧
        (fields.map Prod.fst).Nodup ∧
        ∀ key, AssocMap.lookupIn key fields = fieldAt (.mk list children metadata) key := by
      unfold savePermissions fieldAt
      cases hs : permissionListSave list with
      | none =>
        refine ⟨_, rfl, metadata.nodup, fun key => ?_⟩
        rw [show (VirtualDownstreamNode.mk list children metadata).permissionList = list from rfl, hs]
        split <;> rfl
      | some plist =>
        refine ⟨_, rfl, AssocMap.nodup_setIn metadata.nodup, fun key => ?_⟩
        rw [show (VirtualDownstreamNode.mk list children metadata).permissionList = list from rfl, hs,
          AssocMap.lookupIn_setIn]
        split <;> rfl
    obtain ⟨members, heq, hnm, hmembers⟩ := saveVirtualNodes_spec children fields hn h
    refine ⟨members, by rw [saveObject, hfields, heq], hnm, fun key => ?_⟩
    rw [hmembers, hlookup]
    rfl

theorem fieldAt_meta (hkey : isMetaKey key = true) : fieldAt t key = t.metadata.get key := by
  unfold fieldAt
  rw [if_neg]
  rintro rfl
  exact absurd hkey (by decide)

/-- Metadata is kept under keys of metadata, so only a permission list is under another key. -/
theorem fieldAt_other (h : Sound t) (hkey : isMetaKey key = false) :
    fieldAt t key = if key = cstr "?permissions" then permissionListSave t.permissionList else none := by
  have hnone : t.metadata.get key = none := by
    by_contra hsome
    have := h.keys key (Option.ne_none_iff_isSome.mp hsome)
    rw [hkey] at this
    cases this
  unfold fieldAt
  rw [hnone]
  split
  · exact Option.or_none
  · rfl

/-! ## The round trip of one node -/

/-- A node that others are loaded into. -/
structure Base (b : VirtualDownstreamNode) : Prop where
  keys : ∀ key, (b.metadata.get key).isSome → isMetaKey key = true
  list : b.permissionList = none
  children : b.childrenNode = []

/-- What a node is loaded into, by what was saved. -/
structure Back (b t t' : VirtualDownstreamNode) : Prop where
  metadata : ∀ key, isMetaKey key = true → t'.metadata.get key =
    (((AssocMap.lookupIn key t.childrenNode).map saveObject).or (t.metadata.get key)).or (b.metadata.get key)
  other : ∀ key, isMetaKey key = false → t'.metadata.get key = none
  list : t'.permissionList = ((((AssocMap.lookupIn (cstr "?permissions") t.childrenNode).map saveObject).or
    (permissionListSave t.permissionList)).map permissionListLoad).getD none
  child : ∀ name, AssocMap.lookupIn name t'.childrenNode =
    if isChildKey name then (AssocMap.lookupIn name t.childrenNode).map fun c => loadVirtual (saveObject c) else none

theorem back (h : Sound t) (hb : Base b) (hw : Written t members) : Back b t (loadVirtualMembers b members) := by
  obtain ⟨-, hn, hlookup⟩ := hw
  have hl := loaded_spec members hn b
  refine ⟨fun key hkey => ?_, fun key hkey => ?_, ?_, fun name => ?_⟩
  · rw [hl.metadata, if_pos hkey, hlookup, fieldAt_meta hkey]
  · rw [hl.metadata, if_neg (by rw [hkey]; decide), Option.none_or]
    by_contra hsome
    have := hb.keys key (Option.ne_none_iff_isSome.mp hsome)
    rw [hkey] at this
    cases this
  · rw [hl.list, hlookup, fieldAt_other h (by decide), if_pos rfl, hb.list]
  · rw [hl.child, hb.children, hlookup, AssocMap.lookupIn, Option.or_none]
    cases hname : isChildKey name with
    | false => rfl
    | true =>
      have hmeta : isMetaKey name = false := by
        simp only [isChildKey, Bool.and_eq_true, Bool.not_eq_true'] at hname
        exact hname.2
      have hne : name ≠ cstr "?permissions" := by
        rintro rfl
        exact absurd hname (by decide)
      rw [if_pos rfl, if_pos rfl, fieldAt_other h hmeta, if_neg hne, Option.or_none, Option.map_map]
      rfl

theorem base_init : Base .init := ⟨nofun, rfl, rfl⟩

/-- What is compared: the metadata and the permission list. -/
abbrev NodeData := (CString → Option Json) × Option (List PermissionPair)

def dataOf (node : VirtualDownstreamNode) : NodeData := (node.metadata.get, node.permissionList)

/-- The virtual node that the names lead to. -/
def dataAt (node : VirtualDownstreamNode) (names : List CString) : Option NodeData := (virtualNode names node).map dataOf

/-- The same virtual nodes, with the same metadata and permission lists. -/
def Same (t t' : VirtualDownstreamNode) : Prop := ∀ names, dataAt t' names = dataAt t names

/-- The same virtual nodes with the same permission lists. -/
def SameLists (t t' : VirtualDownstreamNode) : Prop :=
  ∀ names, (dataAt t' names).map Prod.snd = (dataAt t names).map Prod.snd

theorem Same.sameLists (h : Same t t') : SameLists t t' := fun names => congrArg _ (h names)

/-- No permission list is empty, and no virtual node has a name that begins with `?`, `$` or `@`. -/
inductive Plain : VirtualDownstreamNode → Prop
  | intro {t : VirtualDownstreamNode} (list : t.permissionList ≠ some [])
      (named : ∀ name c, AssocMap.lookupIn name t.childrenNode = some c → isChildKey name = true)
      (children : ∀ name c, AssocMap.lookupIn name t.childrenNode = some c → Plain c) : Plain t

theorem dataAt_cons (h : AssocMap.lookupIn name t.childrenNode = some child) (names : List CString) :
    dataAt t (name :: names) = dataAt child names := by
  rw [dataAt, virtualNode, h]
  rfl

theorem dataAt_none (h : AssocMap.lookupIn name t.childrenNode = none) (names : List CString) :
    dataAt t (name :: names) = none := by
  rw [dataAt, virtualNode, h]
  rfl

/-- A list that is saved comes back, unless it is empty. -/
theorem list_back {list : Option (List PermissionPair)} :
    ((permissionListSave list).map permissionListLoad).getD none = list ↔ list ≠ some [] := by
  cases hs : permissionListSave list with
  | none =>
    unfold permissionListSave at hs
    split at hs
    · exact iff_of_true rfl nofun
    · exact iff_of_false nofun fun h => h rfl
    · cases hs
  | some plist =>
    refine iff_of_true (permissionListLoad_save hs) ?_
    rintro rfl
    cases hs

/-- If the virtual nodes and their lists come back, the node is plain. -/
theorem plain_of_sameLists (h : Sound t) : ∀ {b : VirtualDownstreamNode}, Base b → ∀ {members : Object},
    Written t members → SameLists t (loadVirtualMembers b members) → Plain t := by
  induction h with
  | @intro t distinct keys below ih =>
    intro b hb members hw hsame
    have hback := back (.intro distinct keys below) hb hw
    have hnamed : ∀ name c, AssocMap.lookupIn name t.childrenNode = some c → isChildKey name = true := by
      intro name c hc
      by_contra hname
      have hlists := hsame [name]
      rw [dataAt_cons hc, dataAt_none (by rw [hback.child, if_neg hname])] at hlists
      cases hlists
    refine .intro ?_ hnamed fun name c hc => ?_
    · have hlists := hsame []
      have hno : AssocMap.lookupIn (cstr "?permissions") t.childrenNode = none := by
        by_contra hsome
        obtain ⟨c, hc⟩ := Option.ne_none_iff_exists'.mp hsome
        exact absurd (hnamed _ c hc) (by decide)
      have hlist := hback.list
      rw [hno, Option.map_none, Option.none_or] at hlist
      rw [← list_back, ← hlist]
      exact Option.some.inj hlists
    · obtain ⟨below', hw'⟩ := save_spec (below name c hc).distinct
      refine ih name c hc base_init hw' fun names => ?_
      have hlists := hsame (name :: names)
      rw [dataAt_cons hc] at hlists
      rw [← hlists, dataAt_cons]
      rw [hback.child, if_pos (hnamed name c hc), hc, Option.map_some, hw'.1, loadVirtual]

/-- A plain node comes back. -/
theorem same_of_plain (hp : Plain t) : Sound t → ∀ {b : VirtualDownstreamNode}, Base b →
    (∀ key, (b.metadata.get key).isSome → (t.metadata.get key).isSome) → ∀ {members : Object}, Written t members →
    Same t (loadVirtualMembers b members) := by
  induction hp with
  | @intro t list named children ih =>
    intro h b hb hkeys members hw names
    have hback := back h hb hw
    have hno : ∀ key, isChildKey key = false → AssocMap.lookupIn key t.childrenNode = none := by
      intro key hkey
      by_contra hsome
      obtain ⟨c, hc⟩ := Option.ne_none_iff_exists'.mp hsome
      rw [named key c hc] at hkey
      cases hkey
    cases names with
    | nil =>
      refine congrArg some (Prod.ext (funext fun key => ?_) ?_)
      · show (loadVirtualMembers b members).metadata.get key = t.metadata.get key
        cases hkey : isMetaKey key with
        | true =>
          rw [hback.metadata key hkey, hno key (isChildKey_meta hkey), Option.map_none, Option.none_or]
          cases hget : t.metadata.get key with
          | some value => rfl
          | none =>
            rw [Option.none_or]
            by_contra hsome
            have := hkeys key (Option.ne_none_iff_isSome.mp hsome)
            rw [hget] at this
            cases this
        | false =>
          rw [hback.other key hkey]
          by_contra hsome
          have := h.keys key (Option.ne_none_iff_isSome.mp (Ne.symm hsome))
          rw [hkey] at this
          cases this
      · show (loadVirtualMembers b members).permissionList = t.permissionList
        rw [hback.list, hno _ (by decide), Option.map_none, Option.none_or]
        exact list_back.mpr list
    | cons name names =>
      cases hc : AssocMap.lookupIn name t.childrenNode with
      | none =>
        rw [dataAt_none hc, dataAt_none]
        rw [hback.child, hc]
        split <;> rfl
      | some c =>
        obtain ⟨below, hw'⟩ := save_spec (h.lower name c hc).distinct
        have hc' := hback.child name
        rw [if_pos (named name c hc), hc, Option.map_some, hw'.1, loadVirtual] at hc'
        rw [dataAt_cons hc, dataAt_cons hc']
        exact ih name c hc (h.lower name c hc) base_init nofun hw' names

/-- What was loaded is plain. -/
theorem loaded_plain (h : Sound t) : ∀ {b : VirtualDownstreamNode}, Base b → ∀ {members : Object},
    Written t members → Plain (loadVirtualMembers b members) := by
  induction h with
  | @intro t distinct keys below ih =>
    intro b hb members hw
    have hback := back (.intro distinct keys below) hb hw
    have hchild : ∀ name c', AssocMap.lookupIn name (loadVirtualMembers b members).childrenNode = some c' →
        isChildKey name = true ∧ Plain c' := by
      intro name c' hc'
      rw [hback.child] at hc'
      split at hc'
      · rename_i hname
        obtain ⟨c, hc, rfl⟩ := Option.map_eq_some_iff.mp hc'
        obtain ⟨below', hw'⟩ := save_spec (below name c hc).distinct
        rw [hw'.1, loadVirtual]
        exact ⟨hname, ih name c hc base_init hw'⟩
      · cases hc'
    refine .intro ?_ (fun name c' hc' => (hchild name c' hc').1) fun name c' hc' => (hchild name c' hc').2
    rw [hback.list]
    cases hc : AssocMap.lookupIn (cstr "?permissions") t.childrenNode with
    | some c =>
      -- a virtual node of that name is an object, and no list
      obtain ⟨below', hw'⟩ := save_spec (below _ c hc).distinct
      rw [Option.map_some, Option.some_or, hw'.1]
      exact (Option.some_ne_none _).symm
    | none =>
      rw [Option.map_none, Option.none_or]
      cases hs : permissionListSave t.permissionList with
      | none => exact (Option.some_ne_none _).symm
      | some plist =>
        rw [Option.map_some, permissionListLoad_save hs]
        intro hempty
        simp only [Option.getD_some] at hempty
        rw [hempty] at hs
        cases hs

/-! ## The round trip of a downstream node -/

/-- The loop over the members of a downstream node is the one of a virtual node, and reads the group. -/
theorem foldl_loadMember (members : Object) (hn : (members.map Prod.fst).Nodup) (n : DownstreamNode) :
    members.foldl (fun node member => loadMember node member.1 member.2) n =
      ⟨n.dsId, ((AssocMap.lookupIn (cstr "$$group") members).bind Json.stringValue).or n.groups, n.link,
        loadVirtualMembers n.own members⟩ := by
  induction members generalizing n with
  | nil =>
    rw [List.foldl_nil, loadVirtualMembers]
    rfl
  | cons e rest ih =>
    obtain ⟨key, value⟩ := e
    obtain ⟨hkey, hrest⟩ := List.nodup_cons.mp hn
    rw [List.foldl_cons, ih hrest, loadVirtualMembers, AssocMap.lookupIn, loadMember]
    have hgroup : isOtherKey (cstr "$$group") = false ∧ isMetaKey (cstr "$$group") = true := by decide
    by_cases hother : isOtherKey key = true
    · have hne : key ≠ cstr "$$group" := by
        rintro rfl
        rw [hgroup.1] at hother
        cases hother
      rw [if_pos hother, if_pos hother, if_neg hne]
      split <;> rfl
    · rw [if_neg hother, if_neg hother]
      by_cases hmeta : isMetaKey key = true
      · rw [if_pos hmeta, if_pos hmeta]
        by_cases hg : key = cstr "$$group"
        · subst hg
          rw [if_pos rfl, if_pos rfl, AssocMap.lookupIn_eq_none hkey]
          rfl
        · rw [if_neg hg, if_neg hg]
      · have hne : key ≠ cstr "$$group" := by
          rintro rfl
          exact hmeta hgroup.2
        rw [if_neg hmeta, if_neg hmeta, if_neg hne]

/-- What is loaded of the members of a node. -/
def loadedNode (members : Object) (dsId : CString) : DownstreamNode :=
  ⟨some dsId, (AssocMap.lookupIn (cstr "$$group") members).bind Json.stringValue, false,
    loadVirtualMembers brokerInitDownstreamNode.own members⟩

theorem loadNodemap_eq_some (hn : (members.map Prod.fst).Nodup) :
    loadNodemap name (.object members) = some n ↔ isMetaKey name = false ∧
      ∃ dsId, AssocMap.lookupIn (cstr "$$dsId") members = some (.string dsId) ∧ n = loadedNode members dsId := by
  have hstring : ∀ {value : Json} {dsId : CString}, value.stringValue = some dsId ↔ value = .string dsId := by
    intro value dsId
    cases value <;> simp [Json.stringValue]
  have hnode : ∀ dsId, members.foldl (fun node member => loadMember node member.1 member.2)
      { brokerInitDownstreamNode with dsId := some dsId } = loadedNode members dsId := by
    intro dsId
    rw [foldl_loadMember members hn]
    exact congrArg (DownstreamNode.mk _ · _ _) Option.or_none
  unfold loadNodemap
  cases hname : isMetaKey name with
  | true => exact iff_of_false nofun nofun
  | false =>
    simp only [Bool.false_eq_true, if_false, true_and, Option.bind_eq_bind, Option.bind_eq_some_iff, hnode,
      Option.some.injEq, show ∀ key, (Json.object members).get key = AssocMap.lookupIn key members from fun _ => rfl]
    constructor
    · rintro ⟨dsId, ⟨value, hvalue, hs⟩, rfl⟩
      exact ⟨dsId, hstring.mp hs ▸ hvalue, rfl⟩
    · rintro ⟨dsId, hdsId, rfl⟩
      exact ⟨dsId, ⟨_, hdsId, rfl⟩, rfl⟩

/-- A node is loaded into one with a profile. -/
theorem base_own : Base brokerInitDownstreamNode.own := by
  refine ⟨fun key hkey => ?_, rfl, rfl⟩
  have hkey : ((AssocMap.empty.set (cstr "$is") (Json.string (cstr "dsa/link"))).get key).isSome := hkey
  rw [AssocMap.get_set] at hkey
  split at hkey
  · rename_i he
    exact he ▸ by decide
  · cases hkey

theorem base_own_keys (h : Whole n) (hkey : (brokerInitDownstreamNode.own.metadata.get key).isSome) :
    ((saved n).metadata.get key).isSome := by
  have hkey : ((AssocMap.empty.set (cstr "$is") (Json.string (cstr "dsa/link"))).get key).isSome := hkey
  rw [AssocMap.get_set] at hkey
  split at hkey
  · rename_i he
    subst he
    show ((n.own.metadata.erase (cstr "$disconnectedTs")).get (cstr "$is")).isSome
    rw [AssocMap.get_erase_ne (by decide)]
    exact h.profile
  · cases hkey

/-- The same dsId, groups, virtual nodes, metadata and permission lists; `$disconnectedTs` is left out. -/
structure SameNode (n n' : DownstreamNode) : Prop where
  dsId : n'.dsId = n.dsId
  groups : n'.groups = n.groups
  own : Same (saved n) (saved n')

/-- A node with the dsId and the groups of its metadata, and plain. -/
structure PlainNode (n : DownstreamNode) : Prop where
  dsId : ∃ dsId, n.dsId = some dsId ∧ n.own.metadata.get (cstr "$$dsId") = some (.string dsId)
  groups : n.groups = (n.own.metadata.get (cstr "$$group")).bind Json.stringValue
  plain : Plain n.own

/-- Plainness is not about metadata. -/
theorem plain_withMeta {metadata : Metadata} : Plain (withMeta t metadata) ↔ Plain t := by
  constructor
  · rintro ⟨list, named, children⟩
    exact .intro list named children
  · rintro ⟨list, named, children⟩
    exact .intro list named children

theorem saved_get (hne : key ≠ cstr "$disconnectedTs") : (saved n).metadata.get key = n.own.metadata.get key :=
  AssocMap.get_erase_ne hne

/-- Without `$disconnectedTs` there is nothing to leave out. -/
theorem same_saved (h : n.own.metadata.get (cstr "$disconnectedTs") = none) : Same n.own (saved n) := by
  intro names
  cases names with
  | nil =>
    refine congrArg some (Prod.ext (funext fun key => ?_) rfl)
    show (n.own.metadata.erase (cstr "$disconnectedTs")).get key = n.own.metadata.get key
    rw [AssocMap.get_erase]
    split
    · rename_i he
      rw [he, h]
    · rfl
  | cons name names => rfl

theorem dataAt_delMeta (key : CString) : SameLists t (delMeta t key) := by
  intro names
  cases names <;> rfl

/-- What a node is loaded into is the same exactly if the node is plain, and not called like metadata. -/
theorem load_node_iff (h : Whole n) (hw : Written (saved n) members) :
    (∃ n', loadNodemap name (.object members) = some n' ∧ SameNode n n') ↔ isMetaKey name = false ∧ PlainNode n := by
  have hsound : Sound (saved n) := h.sound.delMeta _
  have hback := back hsound base_own hw
  have hfield : ∀ key, isMetaKey key = true → key ≠ cstr "$disconnectedTs" → Plain (saved n) →
      AssocMap.lookupIn key members = n.own.metadata.get key := by
    rintro key hkey hne ⟨-, named, -⟩
    rw [hw.2.2, fieldAt_meta hkey, saved_get hne]
    cases hc : AssocMap.lookupIn key (saved n).childrenNode with
    | none => rfl
    | some c =>
      have := named key c hc
      rw [isChildKey_meta hkey] at this
      cases this
  constructor
  · rintro ⟨n', hload, hsame⟩
    obtain ⟨hname, dsId, hdsId, rfl⟩ := (loadNodemap_eq_some hw.2.1).mp hload
    have hplain : Plain (saved n) := by
      refine plain_of_sameLists hsound base_own hw fun names => ?_
      rw [← hsame.own.sameLists names]
      exact (dataAt_delMeta _ names).symm
    refine ⟨hname, ⟨dsId, hsame.dsId.symm, ?_⟩, ?_, plain_withMeta.mp hplain⟩
    · rw [← hfield _ (by decide) (by decide) hplain, hdsId]
    · rw [← hfield _ (by decide) (by decide) hplain]
      exact hsame.groups.symm
  · rintro ⟨hname, ⟨dsId, hnode, hmeta⟩, hgroups, hplain⟩
    have hplain : Plain (saved n) := plain_withMeta.mpr hplain
    have hsame := same_of_plain hplain hsound base_own (fun key => base_own_keys h) hw
    refine ⟨loadedNode members dsId, (loadNodemap_eq_some hw.2.1).mpr ⟨hname, dsId, ?_, rfl⟩, hnode.symm, ?_, ?_⟩
    · rw [hfield _ (by decide) (by decide) hplain, hmeta]
    · rw [hgroups, ← hfield _ (by decide) (by decide) hplain]
      rfl
    · intro names
      rw [same_saved]
      · exact hsame names
      · have hts := congrFun (congrArg Prod.fst (Option.some.inj (hsame []))) (cstr "$disconnectedTs")
        exact hts.trans (AssocMap.get_erase_self _ _)

/-- What was loaded comes back. -/
theorem loadedNode_plain (h : Whole n) (hw : Written (saved n) members) {dsId : CString}
    (hdsId : AssocMap.lookupIn (cstr "$$dsId") members = some (.string dsId)) : PlainNode (loadedNode members dsId) := by
  have hsound : Sound (saved n) := h.sound.delMeta _
  have hl := loaded_spec members hw.2.1 brokerInitDownstreamNode.own
  refine ⟨⟨dsId, rfl, ?_⟩, ?_, loaded_plain hsound base_own hw⟩
  · show (loadVirtualMembers _ members).metadata.get _ = _
    rw [hl.metadata, if_pos (by decide), hdsId]
    rfl
  · show (AssocMap.lookupIn (cstr "$$group") members).bind _ = ((loadVirtualMembers _ members).metadata.get _).bind _
    have hbase : brokerInitDownstreamNode.own.metadata.get (cstr "$$group") = none := by decide
    rw [hl.metadata, if_pos (by decide), hbase, Option.or_none]

/-! ## All nodes -/

/-- The nodes after a save and a restart. -/
def reload (nodes : AssocMap CString DownstreamNode) : AssocMap CString DownstreamNode :=
  brokerLoadDownstreamNodes (some (brokerSaveDownstreamNodes nodes))

theorem save_nodes (nodes : AssocMap CString DownstreamNode) : ∃ members,
    brokerSaveDownstreamNodes nodes = .object members ∧ (members.map Prod.fst).Nodup ∧
      ∀ name, AssocMap.lookupIn name members = (nodes.get name).map fun n => saveObject (saved n) := by
  have hfold : ∀ (entries : List (CString × DownstreamNode)) (members : Object), (entries.map Prod.fst).Nodup →
      (members.map Prod.fst).Nodup → ∃ members', entries.foldl (fun top entry => Json.set top entry.1
        (saveObject (saved entry.2))) (Json.object members) = .object members' ∧ (members'.map Prod.fst).Nodup ∧
        ∀ name, AssocMap.lookupIn name members' = ((AssocMap.lookupIn name entries).map fun n =>
          saveObject (saved n)).or (AssocMap.lookupIn name members) := by
    intro entries
    induction entries with
    | nil => exact fun members _ hm => ⟨members, rfl, hm, fun name => rfl⟩
    | cons e rest ih =>
      intro members hn hm
      obtain ⟨hkey, hrest⟩ := List.nodup_cons.mp hn
      obtain ⟨members', heq, hn', hlookup⟩ := ih _ hrest (AssocMap.nodup_setIn hm)
      refine ⟨members', heq, hn', fun name => ?_⟩
      rw [hlookup, AssocMap.lookupIn_setIn, AssocMap.lookupIn]
      by_cases hk : e.1 = name
      · subst hk
        rw [if_pos rfl, if_pos rfl, AssocMap.lookupIn_eq_none hkey]
        rfl
      · rw [if_neg hk, if_neg (Ne.symm hk)]
  obtain ⟨members, heq, hn, hlookup⟩ := hfold nodes.entries [] nodes.nodup List.nodup_nil
  exact ⟨members, heq, hn, fun name => (hlookup name).trans Option.or_none⟩

theorem load_nodes (members : Object) (hn : (members.map Prod.fst).Nodup) (name : CString) :
    (brokerLoadDownstreamNodes (some (.object members))).get name =
      (AssocMap.lookupIn name members).bind (loadNodemap name) := by
  have hfold : ∀ (members : Object) (nodes : AssocMap CString DownstreamNode), (members.map Prod.fst).Nodup →
      (members.foldl (fun nodes member => ((loadNodemap member.1 member.2).map (nodes.set member.1)).getD nodes)
        nodes).get name = ((AssocMap.lookupIn name members).bind (loadNodemap name)).or (nodes.get name) := by
    intro members
    induction members with
    | nil => exact fun nodes _ => rfl
    | cons e rest ih =>
      intro nodes hn
      obtain ⟨hkey, hrest⟩ := List.nodup_cons.mp hn
      rw [List.foldl_cons, ih _ hrest, AssocMap.lookupIn]
      by_cases hk : e.1 = name
      · subst hk
        rw [if_pos rfl, AssocMap.lookupIn_eq_none hkey, Option.bind_none, Option.none_or, Option.bind_some]
        cases loadNodemap e.1 e.2 with
        | none => rfl
        | some n => exact AssocMap.get_set_self _ _ _
      · rw [if_neg hk]
        refine congrArg _ ?_
        cases loadNodemap e.1 e.2 with
        | none => rfl
        | some n => exact AssocMap.get_set_ne (Ne.symm hk)
  exact (hfold members .empty hn).trans Option.or_none

theorem reload_get (nodes : AssocMap CString DownstreamNode) (name : CString) :
    (reload nodes).get name = (nodes.get name).bind fun n => loadNodemap name (saveObject (saved n)) := by
  obtain ⟨members, heq, hn, hlookup⟩ := save_nodes nodes
  rw [reload, heq, load_nodes members hn, hlookup, Option.bind_map]
  rfl

/-- The same nodes under the same names. -/
def SameNodes (nodes nodes' : AssocMap CString DownstreamNode) : Prop :=
  ∀ name, Option.Rel SameNode (nodes.get name) (nodes'.get name)

/-- No node has a name that begins with `$` or `@`, and every node is plain. -/
def PlainNodes (nodes : AssocMap CString DownstreamNode) : Prop :=
  ∀ name n, nodes.get name = some n → isMetaKey name = false ∧ PlainNode n

theorem sameNodes_reload_iff (h : ∀ name n, nodes.get name = some n → Whole n) :
    SameNodes nodes (reload nodes) ↔ PlainNodes nodes := by
  have hnode : ∀ name n, nodes.get name = some n →
      (Option.Rel SameNode (some n) ((reload nodes).get name) ↔ isMetaKey name = false ∧ PlainNode n) := by
    intro name n hn
    obtain ⟨members, hw⟩ := save_spec ((h name n hn).sound.delMeta (cstr "$disconnectedTs")).distinct
    rw [reload_get, hn, Option.bind_some, show saveObject (saved n) = .object members from hw.1,
      ← load_node_iff (h name n hn) hw]
    constructor
    · intro hrel
      cases hload : loadNodemap name (.object members) with
      | none =>
        rw [hload] at hrel
        cases hrel
      | some n' =>
        rw [hload] at hrel
        cases hrel
        exact ⟨n', rfl, ‹_›⟩
    · rintro ⟨n', hload, hsame⟩
      rw [hload]
      exact .some hsame
  constructor
  · intro hsame name n hn
    rw [← hnode name n hn, ← hn]
    exact hsame name
  · intro hplain name
    cases hn : nodes.get name with
    | none =>
      rw [reload_get, hn]
      exact .none
    | some n => exact (hnode name n hn).mpr (hplain name n hn)

/-- **`conns.json`.** In every run, a broker that starts with what was saved has the same downstream nodes exactly if
    each has its dsId and its groups as metadata, no permission list is empty, no node has a name that begins with `$`
    or `@`, and no virtual node one that begins with `?`, `$` or `@`. -/
theorem conns_json_exact {σ : State} (h : State.Reached σ) :
    SameNodes σ.nodes (State.start (some (brokerSaveDownstreamNodes σ.nodes))).nodes ↔ PlainNodes σ.nodes :=
  sameNodes_reload_iff h.whole

/-- A link `x` with a virtual node `a` that has a permission list. -/
def oneLink : List Event :=
  [.ws (cstr "x") (cstr "x-1") [], .setPermissionList (cstr "x") [cstr "a"]
    (.array [.array [.string (cstr "g"), .string (cstr "read")]])]

theorem oneLink_reached : ∃ σ : State, State.Reached σ ∧ (σ.nodes.get (cstr "x")).isSome := by
  obtain ⟨σ, hreach, hnode⟩ := Reach.of_eval step (some (.start none)) oneLink
    (fun σ => (σ.nodes.get (cstr "x")).isSome) (by decide)
  exact ⟨σ, hreach.of_init fun σ h => ⟨none, (Option.some.inj h).symm⟩, hnode⟩

theorem conns_json_link : ∃ σ : State, State.Reached σ ∧ (σ.nodes.get (cstr "x")).isSome ∧
    (SameNodes σ.nodes (State.start (some (brokerSaveDownstreamNodes σ.nodes))).nodes ↔ PlainNodes σ.nodes) := by
  obtain ⟨σ, hreach, hnode⟩ := oneLink_reached
  exact ⟨σ, hreach, hnode, conns_json_exact hreach⟩

theorem reload_plain (h : ∀ name n, nodes.get name = some n → Whole n) : PlainNodes (reload nodes) := by
  intro name n' hn'
  rw [reload_get] at hn'
  obtain ⟨n, hn, hload⟩ := Option.bind_eq_some_iff.mp hn'
  obtain ⟨members, hw⟩ := save_spec ((h name n hn).sound.delMeta (cstr "$disconnectedTs")).distinct
  rw [show saveObject (saved n) = .object members from hw.1] at hload
  obtain ⟨hname, dsId, hdsId, rfl⟩ := (loadNodemap_eq_some hw.2.1).mp hload
  exact ⟨hname, loadedNode_plain (h name n hn) hw hdsId⟩

/-- **The second restart.** In every run, what a restart makes of the saved nodes comes back at each further save and
    restart. -/
theorem conns_restart_settles {σ : State} (h : State.Reached σ) :
    SameNodes (reload σ.nodes) (reload (reload σ.nodes)) :=
  (sameNodes_reload_iff (State.allWhole_start _)).mpr (reload_plain h.whole)

theorem conns_restart_link : ∃ σ : State, State.Reached σ ∧ (σ.nodes.get (cstr "x")).isSome ∧
    SameNodes (reload σ.nodes) (reload (reload σ.nodes)) := by
  obtain ⟨σ, hreach, hnode⟩ := oneLink_reached
  exact ⟨σ, hreach, hnode, conns_restart_settles hreach⟩

/-! ## What is on the disk -/

/-- A node that is replaced by one that is saved alike changes nothing of what is written. -/
theorem save_set (hn : nodes.get name = some n) (hs : saved n' = saved n) :
    brokerSaveDownstreamNodes (nodes.set name n') = brokerSaveDownstreamNodes nodes := by
  have hentries : ∀ l : List (CString × DownstreamNode), AssocMap.lookupIn name l = some n →
      (AssocMap.setIn name n' l).map (fun e => (e.1, saved e.2)) = l.map fun e => (e.1, saved e.2) := by
    intro l
    induction l with
    | nil => exact nofun
    | cons e l ih =>
      intro hl
      simp only [AssocMap.lookupIn, AssocMap.setIn] at hl ⊢
      split at hl
      · rename_i he
        rw [if_pos he, List.map_cons, List.map_cons, hs, ← he, Option.some.inj hl]
      · rename_i he
        rw [if_neg he, List.map_cons, List.map_cons, ih hl]
  have hfold : ∀ nodes : AssocMap CString DownstreamNode, brokerSaveDownstreamNodes nodes =
      (nodes.entries.map fun e => (e.1, saved e.2)).foldl (fun top e => top.set e.1 (saveObject e.2)) (.object []) := by
    intro nodes
    rw [List.foldl_map]
    rfl
  rw [hfold, hfold, show (nodes.set name n').entries = AssocMap.setIn name n' nodes.entries from rfl,
    hentries _ hn]

/-- The time of a disconnect is not saved. -/
theorem saved_setMeta (value : Json) (dsId groups : Option CString) (link : Bool) :
    saved ⟨dsId, groups, link, setMeta n.own (cstr "$disconnectedTs") value⟩ = saved n :=
  congrArg (withMeta n.own) (AssocMap.erase_set_self _ _ _)

theorem saved_delMeta (dsId groups : Option CString) (link : Bool) :
    saved ⟨dsId, groups, link, delMeta n.own (cstr "$disconnectedTs")⟩ = saved n :=
  congrArg (withMeta n.own) (AssocMap.erase_of_none (AssocMap.get_erase_self _ _))

/-- A key that has the value already may be set. -/
theorem setMeta_self {value : Json} (h : t.metadata.get key = some value) : setMeta t key value = t := by
  rw [setMeta, AssocMap.set_eq_self h]
  cases t
  rfl

theorem saved_closeLink (ts : CString) : saved (brokerCloseLink n ts) = saved n := by
  unfold brokerCloseLink
  split
  · exact saved_setMeta _ _ _ _
  · rfl

/-- A `/ws` request for a node that has the dsId changes nothing that is saved. -/
theorem saved_acceptNode {dsId : CString} (h : n.own.metadata.get (cstr "$$dsId") = some (.string dsId)) (ts : CString) :
    saved (acceptNode n dsId ts) = saved n := by
  have hclose : (brokerCloseLink n ts).own.metadata.get (cstr "$$dsId") = some (.string dsId) := by
    unfold brokerCloseLink
    split
    · exact (AssocMap.get_set_ne (by decide)).trans h
    · exact h
  unfold acceptNode brokerDslinkConnect
  rw [saved_delMeta, setMeta_self hclose]
  exact saved_closeLink ts

/-- What the step changes of the saved nodes, it schedules a save for. Three events may not: a `/ws` request writes
    its dsId into a node that is there, a broker below sends its profile, and reading a permission list makes the
    virtual nodes on its way. -/
def Event.Scheduled (σ : State) : Event → Prop
  | .ws name dsId _ => ∀ n, σ.nodes.get name = some n → n.own.metadata.get (cstr "$$dsId") = some (.string dsId)
  | .profile name => ∀ n, σ.nodes.get name = some n →
    n.own.metadata.get (cstr "$is") = some (.string (cstr "dsa/broker"))
  | .getPermissionList name names => ∀ n, σ.nodes.get name = some n → (virtualNode names n.own).isSome
  | _ => True

/-- The file was written by this broker, and while no save is pending a restart finds in it what it finds after a
    save. -/
structure Durable (σ : State) : Prop where
  whole : σ.AllWhole
  file : ∀ top, σ.file = some top → ∃ nodes, (∀ name n, nodes.get name = some n → Whole n) ∧
    top = brokerSaveDownstreamNodes nodes
  disk : σ.saveConnsHandler = false → SameNodes (brokerLoadDownstreamNodes σ.file) (reload σ.nodes)

theorem SameNode.refl (n : DownstreamNode) : SameNode n n := ⟨rfl, rfl, fun _ => rfl⟩

theorem SameNodes.refl (nodes : AssocMap CString DownstreamNode) : SameNodes nodes nodes := by
  intro name
  cases nodes.get name with
  | none => exact .none
  | some n => exact .some (.refl n)

theorem SameNode.symm (h : SameNode n n') : SameNode n' n :=
  ⟨h.dsId.symm, h.groups.symm, fun names => (h.own names).symm⟩

theorem SameNode.trans {n'' : DownstreamNode} (h : SameNode n n') (h' : SameNode n' n'') : SameNode n n'' :=
  ⟨h'.dsId.trans h.dsId, h'.groups.trans h.groups, fun names => (h'.own names).trans (h.own names)⟩

theorem SameNodes.symm {nodes' : AssocMap CString DownstreamNode} (h : SameNodes nodes nodes') :
    SameNodes nodes' nodes := by
  intro name
  have hrel := h name
  revert hrel
  generalize nodes.get name = o
  generalize nodes'.get name = o'
  rintro (hsame | -)
  · exact .some hsame.symm
  · exact .none

theorem SameNodes.trans {nodes' nodes'' : AssocMap CString DownstreamNode} (h : SameNodes nodes nodes')
    (h' : SameNodes nodes' nodes'') : SameNodes nodes nodes'' := by
  intro name
  have hrel := h name
  have hrel' := h' name
  revert hrel hrel'
  generalize nodes.get name = o
  generalize nodes'.get name = o'
  generalize nodes''.get name = o''
  rintro (hsame | -) hrel'
  · cases hrel' with
    | some hsame' => exact .some (hsame.trans hsame')
  · exact hrel'

/-- A step that schedules a save leaves nothing to say of the disk. -/
theorem Durable.pending {σ σ' : State} (h : Durable σ) (hw : σ'.AllWhole) (hfile : σ'.file = σ.file)
    (hp : σ'.saveConnsHandler = true) : Durable σ' := by
  refine ⟨hw, fun top htop => h.file top (hfile ▸ htop), fun hno => ?_⟩
  rw [hp] at hno
  cases hno

/-- A node is changed in what is not saved. -/
theorem Durable.keep {σ : State} (h : Durable σ) (hw : (σ.keep name n').AllWhole) (hn : σ.nodes.get name = some n)
    (hs : saved n' = saved n) : Durable (σ.keep name n') := by
  refine ⟨hw, h.file, fun hp => ?_⟩
  show SameNodes _ (brokerLoadDownstreamNodes (some (brokerSaveDownstreamNodes (σ.nodes.set name n'))))
  rw [save_set hn hs]
  exact h.disk hp

theorem durable_start {file : Option Json} (hfile : ∀ top, file = some top → ∃ nodes,
    (∀ name n, nodes.get name = some n → Whole n) ∧ top = brokerSaveDownstreamNodes nodes) :
    Durable (.start file) := by
  refine ⟨State.allWhole_start file, hfile, fun _ => ?_⟩
  refine (sameNodes_reload_iff (State.allWhole_start file)).mpr ?_
  cases file with
  | none => exact fun name n hn => absurd hn nofun
  | some top =>
    obtain ⟨nodes, hwhole, rfl⟩ := hfile top rfl
    exact reload_plain hwhole

theorem Durable.step {σ σ' : State} {e : Event} (h : Durable σ) (hok : e.Scheduled σ) (hs : step σ e = some σ') :
    Durable σ' := by
  have hw := h.whole.step hs
  cases e with
  | claim name dsId token group nodeExists listed =>
    obtain ⟨node, -, rfl⟩ := Option.map_eq_some_iff.mp hs
    exact h.pending hw rfl rfl
  | ws name dsId ts =>
    rw [Conns.step] at hs
    split at hs
    · rename_i node hnode
      obtain rfl := Option.some.inj hs
      exact h.keep hw hnode (saved_acceptNode (hok node hnode) ts)
    · obtain rfl := Option.some.inj hs
      exact h.pending hw rfl rfl
  | disconnect name ts =>
    obtain ⟨node, hnode, hs⟩ := Option.bind_eq_some_iff.mp hs
    split at hs
    · obtain rfl := Option.some.inj hs
      exact h.keep hw hnode (saved_setMeta _ _ _ _)
    · cases hs
  | profile name =>
    obtain ⟨node, hnode, rfl⟩ := Option.map_eq_some_iff.mp hs
    exact h.keep hw hnode (by rw [setMeta_self (hok node hnode)])
  | updateGroup name group ts =>
    obtain ⟨node, -, rfl⟩ := Option.map_eq_some_iff.mp hs
    exact h.pending hw rfl rfl
  | setAttribute name names key value | removeAttribute name names key =>
    obtain ⟨node, -, hs⟩ := Option.bind_eq_some_iff.mp hs
    split at hs
    · obtain rfl := Option.some.inj hs
      exact h.pending hw rfl rfl
    · cases hs
  | setPermissionList name names permissions =>
    obtain ⟨node, -, rfl⟩ := Option.map_eq_some_iff.mp hs
    exact h.pending hw rfl rfl
  | getPermissionList name names =>
    obtain ⟨node, hnode, rfl⟩ := Option.map_eq_some_iff.mp hs
    exact h.keep hw hnode (by rw [(getVirtualPermissionList_snd names node.own).mpr (hok node hnode)])
  | clearConns =>
    obtain rfl := Option.some.inj hs
    exact h.pending hw rfl rfl
  | clearManagedLink token =>
    rw [Conns.step] at hs
    split at hs
    · obtain rfl := Option.some.inj hs
      exact h.pending hw rfl rfl
    · obtain rfl := Option.some.inj hs
      exact h
  | save =>
    rw [Conns.step] at hs
    split at hs
    · obtain rfl := Option.some.inj hs
      exact ⟨hw, fun top htop => ⟨σ.nodes, h.whole, (Option.some.inj htop).symm⟩, fun _ => .refl _⟩
    · cases hs
  | restart =>
    obtain rfl := Option.some.inj hs
    exact durable_start h.file

end DSLink.Conns
