import DSLink.Broker.Forward

/-!
# `Broker.Attribute` — attributes of nodes below a link

`node/virtual_downstream.c`, the attribute half of `msg_set.c`, `msg_remove.c` and the part of `stream.c` that
rebuilds the cache of a list stream. Set and remove requests write an attribute where `broker_node_get` points
to, the cache is built from where the remote path of the stream points to.

## Contents
- `setVirtualAttribute`, `setDownstreamAttribute`: the walk through the virtual nodes that sets or reads.
- `setAttribute`, `brokerMsgHandleRemove`, `resetRemoteCache`.
- `virtualAttribute_set_ne`: what is written at one place is not seen at another one.
- `attributes_listed`: what a request changes in the cache of the list stream of its path.
-/

namespace DSLink

/-! ## Names of a path -/

theorem pathNamesFrom_append {name a rest : CString} (h : slash ∉ a) :
    pathNamesFrom name (a ++ slash :: rest) = (name.reverse ++ a) :: pathNames rest := by
  induction a generalizing name with
  | nil =>
    show pathNamesFrom name (slash :: rest) = _
    rw [pathNamesFrom, if_pos rfl, List.append_nil]
    rfl
  | cons c a ih =>
    obtain ⟨hc, ha⟩ := not_or.mp (List.mem_cons.not.mp h)
    rw [List.cons_append, pathNamesFrom, if_neg (Ne.symm hc), ih ha]
    simp

theorem pathNames_append {a : CString} (h : slash ∉ a) (rest : CString) :
    pathNames (a ++ slash :: rest) = a :: pathNames rest := pathNamesFrom_append h

theorem pathNames_slash (rest : CString) : pathNames (slash :: rest) = [] :: pathNames rest :=
  pathNames_append (a := []) (by simp) rest

/-- The last segment of a path and what is before it. -/
theorem lastSegment_append {p name : CString} (h : slash ∉ name) : lastSegment (p ++ slash :: name) = name := by
  have hrev : ∀ c ∈ name.reverse, c ≠ slash := by
    rintro c hc rfl
    exact h (List.mem_reverse.mp hc)
  unfold lastSegment
  rw [List.reverse_append, List.reverse_cons, List.append_assoc,
    List.takeWhile_append_of_pos (by simpa using hrev)]
  simp

theorem parentPath_append {p name : CString} (h : slash ∉ name) : parentPath (p ++ slash :: name) = p := by
  unfold parentPath
  rw [lastSegment_append h]
  have hlen : (p ++ slash :: name).length - name.length - 1 = p.length := by
    simp
    omega
  rw [hlen, List.take_left']
  rfl

/-! ## `virtual_downstream.c` -/

/-- The innermost block of both walks: without a key nothing is set. -/
def setMember (metadata : Metadata) (key : Option CString) (value : Option Json) : Metadata :=
  match key, value with
  | none, _ => metadata
  | some key, some value => metadata.set key value
  | some key, none => metadata.erase key

/-- `set_virtual_attribute`, with the node it leaves. -/
def setVirtualAttribute (key : Option CString) (value : Option Json) :
    List CString → VirtualDownstreamNode → VirtualDownstreamNode × Option Metadata
  | [], node =>
    let metadata := setMember node.metadata key value
    (.mk node.permissionList node.childrenNode metadata, some metadata)
  | name :: names, node =>
    let child := AssocMap.lookupIn name node.childrenNode
    if child.isNone ∧ key.isNone then (node, none)
    else
      let (child, metadata) := setVirtualAttribute key value names (child.getD .init)
      (.mk node.permissionList (AssocMap.setIn name child node.childrenNode) node.metadata, metadata)

namespace Site

/-- `set_downstream_attribute`. -/
def setDownstreamAttribute (σ : Site) (path : CString) (d : DownId) (key : Option CString) (value : Option Json) :
    Site × Option Metadata :=
  match pathNames path with
  | [] =>
    let metadata := setMember (σ.metadata (.downstream d)) key value
    ({ σ with metadata := Function.update σ.metadata (.downstream d) metadata }, some metadata)
  | name :: names =>
    let child := AssocMap.lookupIn name (σ.childrenPermissions d)
    if child.isNone ∧ key.isNone then (σ, none)
    else
      let (child, metadata) := setVirtualAttribute key value names (child.getD .init)
      let children := AssocMap.setIn name child (σ.childrenPermissions d)
      ({ σ with childrenPermissions := Function.update σ.childrenPermissions d children }, metadata)

/-! ## Set and remove requests for an attribute -/

/-- `update_list_attribute` on the cache of a list stream. -/
def updateListAttribute (cache : Metadata) (name : CString) (value : Option Json) : Metadata :=
  setMember cache (some name) value

/-- The blocks of `broker_msg_check_set_arrtribtues` and `broker_msg_handle_remove` that change an attribute;
    `value` is NULL for a remove request. -/
def setAttribute (σ : Site) (node : Option (NodeRef × CString)) (name : CString) (value : Option Json) : Site :=
  match node with
  | none => σ
  | some (.downstream d, out) =>
    let (σ, metadata) := σ.setDownstreamAttribute out d (some name) value
    match metadata, (σ.listCaches d).get out with
    | some _, some cache =>
      { σ with listCaches := Function.update σ.listCaches d ((σ.listCaches d).set out
          (updateListAttribute cache name value)) }
    | _, _ => σ
  | some (.regular n, _) =>
    { σ with
      metadata := Function.update σ.metadata (.regular n)
        (setMember (σ.metadata (.regular n)) (some name) value)
      listCache := Function.update σ.listCache n ((σ.listCache n).map (updateListAttribute · name value)) }

/-- What a remove request leads to. -/
inductive RemoveEffect
  | malformed
  | closed (error : CString)
  | attribute (node : Option (NodeRef × CString)) (name : CString)

/-- `broker_msg_handle_remove`. The permission is the one on the path with the attribute. -/
def brokerMsgHandleRemove (σ : Site) (L : DownId) (req : Json) : Option RemoveEffect :=
  match requestPath req, req.get (cstr "rid") with
  | some path, some _ =>
    if slash ∉ path then none
    else if (lastSegment path).head? ≠ some 64 then some (.closed (cstr "invalidParameter"))
    else do
      let node ← σ.base.brokerNodeGet (parentPath path)
      let permission ← σ.permissionOnPath L req path
      if permission < .write then some (.closed (cstr "permissionDenied"))
      else some (.attribute node (lastSegment path))
  | _, _ => some .malformed

/-! ## `broker_stream_list_reset_remote_cache` -/

/-- The loops over `meta`: the members whose key starts with '@' are copied. -/
def copyAttributes (metadata cache : Metadata) : Metadata :=
  metadata.entries.foldl (fun cache e => if e.1.head? = some 64 then cache.set e.1 e.2 else cache) cache

/-- Set a member unless the value is NULL. -/
def setIfAny (cache : Metadata) (key : CString) (value : Option Json) : Metadata :=
  match value with
  | none => cache
  | some value => cache.set key value

/-- The cache `broker_stream_list_reset_remote_cache` builds with a link for the list stream of `d` with the remote
    path `remotePath`. -/
def resetRemoteCache (σ : Site) (d : DownId) (link : RemoteDSLink Json) (remotePath : CString) : Metadata :=
  if remotePath = [slash] then
    let cache := setIfAny .empty (cstr "$linkData") (σ.linkData d)
    let cache := setIfAny cache (cstr "$$group") (σ.groups d)
    copyAttributes (σ.metadata (.downstream d)) cache
  else
    let cache := setIfAny .empty (cstr "$base") (link.path.map Json.string)
    match (σ.setDownstreamAttribute remotePath.tail d none none).2 with
    | none => cache
    | some metadata => copyAttributes metadata cache

end Site

/-! ## Reading at another place than was written -/

/-- What a virtual node has for the attribute `k` at the end of a walk. -/
def virtualAttribute (names : List CString) (node : VirtualDownstreamNode) (k : CString) : Option Json :=
  (setVirtualAttribute none none names node).2.bind (fun metadata => metadata.get k)

theorem virtualAttribute_cons (name : CString) (names : List CString) (node : VirtualDownstreamNode) (k : CString) :
    virtualAttribute (name :: names) node k
      = (AssocMap.lookupIn name node.childrenNode).bind (fun child => virtualAttribute names child k) := by
  unfold virtualAttribute
  rw [setVirtualAttribute]
  cases AssocMap.lookupIn name node.childrenNode with
  | none => rfl
  | some child => rfl

/-- A new virtual node has nothing at any place. -/
theorem virtualAttribute_init (names : List CString) (k : CString) :
    virtualAttribute names .init k = none := by
  cases names with
  | nil => rfl
  | cons name names => rw [virtualAttribute_cons]; rfl

theorem setVirtualAttribute_cons (key : CString) (value : Option Json) (name : CString) (names : List CString)
    (node : VirtualDownstreamNode) :
    setVirtualAttribute (some key) value (name :: names) node =
      (.mk node.permissionList (AssocMap.setIn name
        (setVirtualAttribute (some key) value names ((AssocMap.lookupIn name node.childrenNode).getD .init)).1
        node.childrenNode) node.metadata,
       (setVirtualAttribute (some key) value names ((AssocMap.lookupIn name node.childrenNode).getD .init)).2) := by
  rw [setVirtualAttribute, if_neg (by simp)]

/-- Setting an attribute at one place leaves the attributes of every other place alone. The induction is along
    the place that is written: the two places part at some name, or one of them ends first. -/
theorem virtualAttribute_set_ne {names names' : List CString} (h : names' ≠ names) (node : VirtualDownstreamNode)
    (key : CString) (value : Option Json) (k : CString) :
    virtualAttribute names' (setVirtualAttribute (some key) value names node).1 k
      = virtualAttribute names' node k := by
  induction names generalizing names' node with
  | nil =>
    obtain ⟨name', names', rfl⟩ := List.exists_cons_of_ne_nil h
    rw [virtualAttribute_cons, virtualAttribute_cons]
    rfl
  | cons name names ih =>
    rw [setVirtualAttribute_cons]
    cases names' with
    | nil => rfl
    | cons name' names' =>
      rw [virtualAttribute_cons, virtualAttribute_cons]
      show (AssocMap.lookupIn name' (AssocMap.setIn name _ node.childrenNode)).bind _ = _
      rw [AssocMap.lookupIn_setIn]
      by_cases hname : name' = name
      · subst hname
        have hne : names' ≠ names := fun he => h (by rw [he])
        rw [if_pos rfl, Option.bind_some, ih hne]
        cases AssocMap.lookupIn name' node.childrenNode with
        | none => exact virtualAttribute_init names' k
        | some child => rfl
      · rw [if_neg hname]

namespace Site

/-- What the downstream node `d` has for the attribute `k` at the place `names`; the node itself is at no name. -/
def attributeAt (σ : Site) (d : DownId) : List CString → CString → Option Json
  | [], k => (σ.metadata (.downstream d)).get k
  | name :: names, k => (AssocMap.lookupIn name (σ.childrenPermissions d)).bind (fun child => virtualAttribute names child k)

theorem setDownstreamAttribute_read (σ : Site) (path : CString) (d : DownId) (k : CString) :
    (σ.setDownstreamAttribute path d none none).2.bind (fun metadata => metadata.get k)
      = σ.attributeAt d (pathNames path) k := by
  unfold setDownstreamAttribute
  cases pathNames path with
  | nil => rfl
  | cons name names =>
    simp only [attributeAt]
    cases AssocMap.lookupIn name (σ.childrenPermissions d) <;> rfl

/-- Setting an attribute through one path leaves what is at another place alone. -/
theorem attributeAt_set_ne {σ : Site} {path : CString} {d e : DownId} {names : List CString}
    (h : d = e → names ≠ pathNames path) (key : CString) (value : Option Json) (k : CString) :
    (σ.setDownstreamAttribute path e (some key) value).1.attributeAt d names k = σ.attributeAt d names k := by
  unfold setDownstreamAttribute
  cases hpath : pathNames path with
  | nil =>
    cases names with
    | nil =>
      have hde : NodeRef.downstream d ≠ .downstream e := by
        rintro ⟨⟩
        exact h rfl hpath.symm
      show (Function.update σ.metadata (.downstream e) _ (.downstream d)).get k = _
      rw [Function.update_of_ne hde]
      rfl
    | cons name names => rfl
  | cons name names' =>
    have hupdate : ∀ {children : List (CString × VirtualDownstreamNode)},
        children = AssocMap.setIn name (setVirtualAttribute (some key) value names'
          ((AssocMap.lookupIn name (σ.childrenPermissions e)).getD .init)).1 (σ.childrenPermissions e) →
        ({ σ with childrenPermissions := Function.update σ.childrenPermissions e children } : Site).attributeAt d
          names k = σ.attributeAt d names k := by
      rintro children rfl
      cases names with
      | nil => rfl
      | cons name' names =>
        show (AssocMap.lookupIn name' (Function.update σ.childrenPermissions e _ d)).bind _ = _
        by_cases hde : d = e
        · subst hde
          rw [Function.update_self, AssocMap.lookupIn_setIn]
          by_cases hname : name' = name
          · subst hname
            have hne : names ≠ names' := fun he => h rfl (by rw [he, hpath])
            rw [if_pos rfl, Option.bind_some, virtualAttribute_set_ne hne]
            show _ = (AssocMap.lookupIn name' (σ.childrenPermissions d)).bind _
            cases AssocMap.lookupIn name' (σ.childrenPermissions d) with
            | none => exact virtualAttribute_init names k
            | some child => rfl
          · rw [if_neg hname]
            rfl
        · rw [Function.update_of_ne hde]
          rfl
    dsimp only
    rw [if_neg (by simp)]
    exact hupdate rfl

/-! ## The cache of a list stream -/

theorem get_copyAttributes {metadata cache : Metadata} {k : CString} (hk : k.head? = some 64)
    (hcache : cache.get k = none) : (copyAttributes metadata cache).get k = metadata.get k := by
  obtain ⟨entries, hnodup⟩ := metadata
  show (List.foldl _ cache entries).get k = AssocMap.lookupIn k entries
  -- the entries still to come decide, then what is already in the cache
  suffices ∀ cache : Metadata, (List.foldl (fun cache (e : CString × Json) =>
      if e.1.head? = some 64 then cache.set e.1 e.2 else cache) cache entries).get k
        = (AssocMap.lookupIn k entries).or (cache.get k) by
    rw [this, hcache, Option.or_none]
  clear hcache cache
  induction entries with
  | nil => intro cache; rfl
  | cons e entries ih =>
    intro cache
    obtain ⟨hnot, hnodup⟩ := List.nodup_cons.mp hnodup
    rw [List.foldl_cons, ih hnodup]
    by_cases hke : e.1 = k
    · have hnone : AssocMap.lookupIn k entries = none := AssocMap.lookupIn_eq_none (hke ▸ hnot)
      simp [AssocMap.lookupIn, hke, hk, hnone]
    · have hget : (if e.1.head? = some 64 then cache.set e.1 e.2 else cache).get k = cache.get k := by
        split
        · exact AssocMap.get_set_ne (Ne.symm hke)
        · rfl
      rw [hget, AssocMap.lookupIn, if_neg hke]

/-- Where the cache of a stream takes its attributes from. -/
def listedAt (remotePath : CString) : List CString :=
  if remotePath = [slash] then [] else pathNames remotePath.tail

theorem get_setIfAny_ne {cache : Metadata} {key k : CString} (value : Option Json) (h : k ≠ key) :
    (setIfAny cache key value).get k = cache.get k := by
  cases value with
  | none => rfl
  | some value => exact AssocMap.get_set_ne h

/-- The rebuilt cache has exactly the attributes of the place the remote path points to. -/
theorem get_resetRemoteCache (σ : Site) (d : DownId) (link : RemoteDSLink Json) (remotePath : CString) {k : CString}
    (hk : k.head? = some 64) :
    (σ.resetRemoteCache d link remotePath).get k = σ.attributeAt d (listedAt remotePath) k := by
  have hne : ∀ s : String, (cstr s).head? = some 36 → k ≠ cstr s := by
    rintro s hs rfl
    rw [hs] at hk
    exact absurd hk (by decide)
  unfold resetRemoteCache listedAt
  split
  · rw [get_copyAttributes hk]
    · rfl
    · rw [get_setIfAny_ne _ (hne "$$group" (by decide)), get_setIfAny_ne _ (hne "$linkData" (by decide))]
      rfl
  · have hbase : (setIfAny .empty (cstr "$base") (link.path.map Json.string)).get k = none := by
      rw [get_setIfAny_ne _ (hne "$base" (by decide))]
      rfl
    rw [← setDownstreamAttribute_read]
    split
    · rename_i hnone
      rw [hnone, hbase]
      rfl
    · rename_i metadata hsome
      rw [get_copyAttributes hk hbase, hsome]
      rfl

/-- A request that writes at no place of `d` that is called `names` leaves the attributes there. -/
theorem attributeAt_setAttribute_ne {σ : Site} {target : Option (NodeRef × CString)} {d : DownId}
    {names : List CString} (h : ∀ out, target = some (.downstream d, out) → names ≠ pathNames out) (key : CString)
    (value : Option Json) (k : CString) :
    (σ.setAttribute target key value).attributeAt d names k = σ.attributeAt d names k := by
  match target, h with
  | none, _ => rfl
  | some (.regular n, out), _ =>
    cases names with
    | nil =>
      show (Function.update σ.metadata (.regular n) (setMember (σ.metadata (.regular n)) (some key) value)
        (.downstream d)).get k = _
      rw [Function.update_of_ne (by simp)]
      rfl
    | cons name names => rfl
  | some (.downstream e, out), h =>
    have hwrite := attributeAt_set_ne (σ := σ) (d := d) (e := e)
      (fun he => h out (by rw [he])) key value k
    rw [← hwrite]
    unfold setAttribute
    dsimp only
    split
    · cases names <;> rfl
    · rfl

/-! ## Set and remove requests below a link -/

/-- Setting values is never taken for setting an attribute. -/
theorem setValue_not_attribute {σ : Site} {L : DownId} {req : Json} {path : CString} {handled : Handled}
    (h : σ.setValue L req path = some handled) (node : Option (NodeRef × CString)) (name : CString) (value : Json) :
    handled.effect ≠ .attribute node name value := by
  intro he
  simp only [setValue, Option.bind_eq_bind, Option.bind_eq_some_iff] at h
  obtain ⟨found, -, permission, -, h⟩ := h
  split at h
  · cases h; cases he
  · split at h
    · simp only [Option.bind_eq_some_iff] at h
      obtain ⟨dnode, -, h⟩ := h
      obtain rfl := Option.some.inj h
      dsimp only at he
      split at he <;> cases he
    · split at h <;> (cases h; cases he)
    · split at h
      · cases h; cases he
      · split at h <;> (cases h; cases he)

/-- An accepted set request for an attribute writes the value of the request where the path before the attribute
    points to. -/
theorem brokerMsgHandleSet_attribute {σ : Site} {L : DownId} {req : Json} {p key key' : CString} {value : Json}
    {replies : List (Option CString)} {target : Option (NodeRef × CString)}
    (hpath : requestPath req = some (p ++ slash :: key)) (hkey : slash ∉ key)
    (h : σ.brokerMsgHandleSet L req = some ⟨replies, .attribute target key' value⟩) :
    key' = key ∧ req.get (cstr "value") = some value ∧ σ.base.brokerNodeGet p = some target := by
  unfold brokerMsgHandleSet at h
  split at h
  · rename_i path _ hpath' _
    obtain rfl := Option.some.inj (hpath'.symm.trans hpath)
    simp only [Option.bind_eq_bind, Option.bind_eq_some_iff] at h
    obtain ⟨check, hcheck, h⟩ := h
    split at h
    · exact absurd rfl (setValue_not_attribute h target key' value)
    · simp only [Option.bind_eq_some_iff] at h
      obtain ⟨handled, hs, h⟩ := h
      obtain ⟨-, he⟩ := Handled.mk.inj (Option.some.inj h)
      exact absurd he (setValue_not_attribute hs target key' value)
    · cases h
    · cases h
      simp only [brokerMsgCheckSetAttributes, lastSegment_append hkey, parentPath_append hkey, Option.bind_eq_bind]
        at hcheck
      split at hcheck
      · cases hcheck
      · split at hcheck
        · cases hcheck
        · split at hcheck
          · cases hcheck
          · rename_i value' hv
            simp only [Option.bind_eq_some_iff] at hcheck
            obtain ⟨node, hnode, permission, -, hcheck⟩ := hcheck
            split at hcheck
            · cases hcheck
            · cases hcheck
              exact ⟨rfl, hv, hnode⟩
  · cases h

theorem brokerMsgHandleRemove_attribute {σ : Site} {L : DownId} {req : Json} {p key key' : CString}
    {target : Option (NodeRef × CString)} (hpath : requestPath req = some (p ++ slash :: key)) (hkey : slash ∉ key)
    (h : σ.brokerMsgHandleRemove L req = some (.attribute target key')) :
    key' = key ∧ σ.base.brokerNodeGet p = some target := by
  unfold brokerMsgHandleRemove at h
  split at h
  · rename_i path _ hpath' _
    obtain rfl := Option.some.inj (hpath'.symm.trans hpath)
    simp only [lastSegment_append hkey, parentPath_append hkey, Option.bind_eq_bind] at h
    split at h
    · cases h
    · split at h
      · cases h
      · simp only [Option.bind_eq_some_iff] at h
        obtain ⟨node, hnode, permission, -, h⟩ := h
        split at h
        · cases h
        · cases h
          exact ⟨rfl, hnode⟩
  · cases h

/-- The place a request for a path of `d` writes to is never the place that the list of that path shows: the text
    that `broker_node_get` stores starts with a slash, and the walk takes an empty name before it. -/
theorem listedAt_ne {σ : Site} {top name rest out : CString} {d : DownId} {node : DownstreamNode Json}
    (htree : σ.base.TreeOk) (hl : σ.base.LinkAt top name d) (hd : σ.base.dnode.get d = some node)
    (htop : slash ∉ top) (hne : top ≠ []) (hrest : rest = [] ∨ rest.head? = some slash)
    (hget : σ.base.brokerNodeGet (node.path ++ rest) = some (some (.downstream d, out))) :
    listedAt (respPath rest) ≠ pathNames out := by
  obtain ⟨hpath, hnodeName⟩ := hl.path htree hd
  have hname : slash ∉ name := hnodeName ▸ Broker.brokerNodeGet_slash_free htree hget hd
  have hself : name ≠ [] ∨ rest ≠ [] := by
    by_contra hcon
    obtain ⟨rfl, rfl⟩ : name = [] ∧ rest = [] := by simpa using hcon
    obtain ⟨p, hparent⟩ := Broker.brokerNodeGet_link_nameless hl htop hne
    rw [hpath, List.append_nil, hparent] at hget
    cases hget
  rw [hpath, Broker.brokerNodeGet_link hl htop hne hname hrest hself] at hget
  cases hget
  rcases hrest with rfl | hrest
  · rw [if_pos rfl, pathNames_slash]
    exact fun h => by cases h
  · obtain ⟨s, rfl⟩ : ∃ s, rest = slash :: s := by
      cases rest with
      | nil => cases hrest
      | cons c s => exact ⟨s, by rw [Option.some.inj hrest]⟩
    rw [if_neg (by simp), pathNames_slash]
    show (if respPath (slash :: s) = [slash] then [] else pathNames (respPath (slash :: s)).tail) ≠ _
    split
    · exact fun h => by cases h
    · intro h
      have hlen := congrArg List.length h
      simp [respPath] at hlen

end Site

/-- After an accepted set request for an attribute of a path of the link `d`, the rebuilt cache of the list stream of
    that path has the value for the attribute exactly if it was already where the list looks for it; after a
    remove request it is absent exactly if it already was. -/
theorem attributes_listed {cfg : Config} {ok : Broker Json → Event Json → Prop} {σ : Site}
    (hreach : Reach (Broker.step cfg) ok (fun σ => Broker.brokerInit = some σ) σ.base) {top name : CString}
    (htop : top = cstr "downstream" ∨ top = cstr "upstream") {d : DownId} (hl : σ.base.LinkAt top name d)
    {node : DownstreamNode Json} (hd : σ.base.dnode.get d = some node) (link : RemoteDSLink Json) {rest key : CString}
    (hrest : rest = [] ∨ rest.head? = some slash) (hat : key.head? = some 64) (hkey : slash ∉ key) {L : DownId}
    {req : Json} (hreq : requestPath req = some (node.path ++ rest ++ slash :: key)) :
    (∀ replies target key' value, σ.brokerMsgHandleSet L req = some ⟨replies, .attribute target key' value⟩ →
      key' = key ∧ req.get (cstr "value") = some value ∧
      (((σ.setAttribute target key' (some value)).resetRemoteCache d link (respPath rest)).get key = some value ↔
        σ.attributeAt d (Site.listedAt (respPath rest)) key = some value)) ∧
    ∀ target key', σ.brokerMsgHandleRemove L req = some (.attribute target key') →
      key' = key ∧
      (((σ.setAttribute target key' none).resetRemoteCache d link (respPath rest)).get key = none ↔
        σ.attributeAt d (Site.listedAt (respPath rest)) key = none) := by
  have htree := Broker.reach_tree hreach
  have hslash : slash ∉ top ∧ top ≠ [] := by
    rcases htop with rfl | rfl <;> decide
  have hkeep : ∀ target value, σ.base.brokerNodeGet (node.path ++ rest) = some target →
      ((σ.setAttribute target key value).resetRemoteCache d link (respPath rest)).get key
        = σ.attributeAt d (Site.listedAt (respPath rest)) key := by
    intro target value hget
    rw [Site.get_resetRemoteCache _ d link _ hat]
    apply Site.attributeAt_setAttribute_ne
    rintro out rfl
    exact Site.listedAt_ne htree hl hd hslash.1 hslash.2 hrest hget
  constructor
  · intro replies target key' value h
    obtain ⟨rfl, hvalue, hget⟩ := Site.brokerMsgHandleSet_attribute hreq hkey h
    exact ⟨rfl, hvalue, by rw [hkeep target _ hget]⟩
  · intro target key' h
    obtain ⟨rfl, hget⟩ := Site.brokerMsgHandleRemove_attribute hreq hkey h
    exact ⟨rfl, by rw [hkeep target _ hget]⟩

/-- The broker after an accepted set request for an attribute. -/
def Site.afterSet (σ : Site) (L : DownId) (req : Json) : Option Site :=
  match σ.brokerMsgHandleSet L req with
  | some ⟨_, .attribute target key value⟩ => some (σ.setAttribute target key (some value))
  | _ => none

theorem Site.afterSet_eq_some {σ σ' : Site} {L : DownId} {req : Json} (h : σ.afterSet L req = some σ') :
    ∃ replies target key value, σ.brokerMsgHandleSet L req = some ⟨replies, .attribute target key value⟩ ∧
      σ' = σ.setAttribute target key (some value) := by
  unfold Site.afterSet at h
  split at h
  · rename_i replies target key value heq
    exact ⟨replies, target, key, value, heq, (Option.some.inj h).symm⟩
  · cases h

/-- The request of the link `r` for an attribute of a node of the link `x`. -/
def attributeRequest : Json := pathRequest "/downstream/x/a/@b" none

theorem attributes_listed_nested : ∃ σ σ' : Site, ∃ link value, σ.afterSet 0 attributeRequest = some σ' ∧
    attributeRequest.get (cstr "value") = some value ∧
    ((σ'.resetRemoteCache 1 link (cstr "/a")).get (cstr "@b") = some value ↔
      σ.attributeAt 1 [cstr "a"] (cstr "@b") = some value) := by
  obtain ⟨base, hreach, hcheck⟩ := Reach.of_eval (Broker.step Broker.smallConfig) Broker.brokerInit twoLinks
    (fun base => ((openSite base .write (by decide)).afterSet 0 attributeRequest).isSome ∧
      (base.node.get base.root).bind (fun root => root.children.get (cstr "downstream")) = some (.regular 7) ∧
      (base.node.get 7).bind (fun parent => parent.children.get (cstr "x")) = some (.downstream 1) ∧
      (base.dnode.get 1).map DownstreamNode.path = some (cstr "/downstream/x")) (by decide)
  simp only [Bool.decide_and, Bool.and_eq_true, decide_eq_true_eq] at hcheck
  obtain ⟨hset, htop, hname, hd⟩ := hcheck
  obtain ⟨σ', hσ'⟩ := Option.isSome_iff_exists.mp hset
  obtain ⟨replies, target, key, value, hset, rfl⟩ := Site.afterSet_eq_some hσ'
  obtain ⟨node, hnode, hpath⟩ := Option.map_eq_some_iff.mp hd
  have hl : base.LinkAt (cstr "downstream") (cstr "x") 1 := .of_get htop hname (by rw [hnode]; rfl)
  have hreq : requestPath attributeRequest = some (node.path ++ cstr "/a" ++ slash :: cstr "@b") := by
    rw [hpath]
    rfl
  have hlisted := attributes_listed (σ := openSite base .write (by decide)) (L := 0) hreach (.inl rfl) hl hnode
    ⟨none, 0, []⟩ (.inr rfl) rfl (by decide) hreq
  obtain ⟨-, hvalue, hiff⟩ := hlisted.1 replies target key value hset
  exact ⟨_, _, ⟨none, 0, []⟩, value, hσ', hvalue, hiff⟩

/-- The link `r` sets an attribute of a node of the link `x`, and the list of that node does not have it. -/
theorem attribute_not_listed : ∃ σ σ' : Site,
    Reach (Broker.step Broker.smallConfig) (fun _ _ => True) (fun σ => Broker.brokerInit = some σ) σ.base ∧
      σ.afterSet 0 attributeRequest = some σ' ∧ attributeRequest.get (cstr "value") ≠ none ∧
      ∀ link, (σ'.resetRemoteCache 1 link (cstr "/a")).get (cstr "@b") = none := by
  obtain ⟨base, hreach, hcheck⟩ := Reach.of_eval (Broker.step Broker.smallConfig) Broker.brokerInit twoLinks
    (fun base => ((openSite base .write (by decide)).afterSet 0 attributeRequest).any (fun σ' =>
      (σ'.attributeAt 1 [cstr "a"] (cstr "@b")).isNone)) (by decide)
  obtain ⟨σ', hσ', hnone⟩ := (Option.any_eq_true _ _).mp hcheck
  refine ⟨openSite base .write (by decide), σ', hreach, hσ', by simp [attributeRequest, pathRequest, Json.get,
    AssocMap.lookupIn, cstr], fun link => ?_⟩
  rw [Site.get_resetRemoteCache _ 1 link _ rfl]
  exact Option.isNone_iff_eq_none.mp hnone

end DSLink
