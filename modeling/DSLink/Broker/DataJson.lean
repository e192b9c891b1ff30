import DSLink.Broker.DataSound

/-!
# `Broker.DataJson` — what a restart makes of `data.json`

`broker_save_data_node` writes the metadata, the permission list and the children of a node into one object;
`broker_load_data_node` tells them apart by the first character of the key. The writer is given by what it has under
each key, the reader by what a node has after it, and both meet in `dataAt`: the data nodes by their path.

## Contents
- `loadMembers_spec`, `lookup_save`.
- `Plain`: the trees that come back. `data_json_exact`.
-/

namespace DSLink.DataTree

variable {top : Bool} {node node' child t t' b : BrokerNode} {name key : CString} {names : List CString}

/-! ## The reader -/

theorem notMeta_permissions : isMetaKey (cstr "?permissions") = false := by decide

/-- What a node has after its members were read: metadata under the keys of metadata, the permission list, and a child
    under each other key. -/
structure Loaded (node node' : BrokerNode) (members : Object) : Prop where
  metadata : ∀ key, node'.label.metadata.get key =
    ((if isMetaKey key then AssocMap.lookupIn key members else none).or (node.label.metadata.get key))
  list : node'.label.permissionList =
    ((AssocMap.lookupIn (cstr "?permissions") members).map permissionListLoad).getD node.label.permissionList
  child : ∀ name, node'.child name =
    if isMetaKey name then node.child name
    else ((AssocMap.lookupIn name members).map (brokerLoadDataNode newDataNode)).getD (node.child name)

/-- The members of an object. -/
def membersOf : Json → Object
  | .object members => members
  | _ => []

theorem saveFields_object (fields : Fields) : saveFields fields = .object (membersOf (saveFields fields)) := by
  unfold saveFields
  split <;> rfl

/-- The loop over the children writes one member for each child that is no action. -/
theorem saveChildren_spec (children : List (CString × BrokerNode)) (members : Object)
    (hc : (children.map Prod.fst).Nodup) (hm : (members.map Prod.fst).Nodup) :
    ∃ members', saveChildren (.object members) children = .object members' ∧ (members'.map Prod.fst).Nodup ∧
      ∀ key, AssocMap.lookupIn key members' =
        ((AssocMap.lookupIn key children).bind fun c => if isAction c then none else some (brokerSaveDataNode c)).or
          (AssocMap.lookupIn key members) := by
  induction children generalizing members with
  | nil =>
    rw [saveChildren]
    exact ⟨members, rfl, hm, fun key => rfl⟩
  | cons e rest ih =>
    obtain ⟨name, c⟩ := e
    obtain ⟨hname, hrest⟩ := List.nodup_cons.mp hc
    have hnone : AssocMap.lookupIn name rest = none := AssocMap.lookupIn_eq_none hname
    rw [saveChildren]
    by_cases ha : isAction c = true
    · rw [if_pos ha]
      obtain ⟨members', heq, hn, hlookup⟩ := ih members hrest hm
      refine ⟨members', heq, hn, fun key => ?_⟩
      rw [hlookup, AssocMap.lookupIn]
      by_cases hk : name = key
      · subst hk
        simp [hnone, ha]
      · rw [if_neg hk]
    · rw [if_neg ha, Json.set_object]
      obtain ⟨members', heq, hn, hlookup⟩ := ih _ hrest (AssocMap.nodup_setIn hm)
      refine ⟨members', heq, hn, fun key => ?_⟩
      rw [hlookup, AssocMap.lookupIn_setIn, AssocMap.lookupIn]
      by_cases hk : name = key
      · subst hk
        simp [hnone, ha]
      · rw [if_neg hk, if_neg (Ne.symm hk)]

/-- What is written under a key for the node itself. -/
def fieldAt (fields : Fields) (key : CString) : Option Json :=
  if key = cstr "?permissions" then (permissionListSave fields.permissionList).or (fields.metadata.get key)
  else fields.metadata.get key

/-- What is written for a child that is no action. -/
def childAt (node : BrokerNode) (key : CString) : Option Json :=
  (node.child key).bind fun c => if isAction c then none else some (brokerSaveDataNode c)

theorem save_spec (hd : t.Distinct) : ∃ members, brokerSaveDataNode t = .object members ∧
    (members.map Prod.fst).Nodup ∧
    ∀ key, AssocMap.lookupIn key members = (childAt t key).or (fieldAt t.label key) := by
  cases t with
  | node fields children =>
    have hfields : (membersOf (saveFields fields)).map Prod.fst |>.Nodup := by
      unfold saveFields
      split
      · exact AssocMap.nodup_setIn fields.metadata.nodup
      · exact fields.metadata.nodup
    have hlookup : ∀ key, AssocMap.lookupIn key (membersOf (saveFields fields)) = fieldAt fields key := by
      intro key
      unfold saveFields fieldAt
      cases permissionListSave fields.permissionList with
      | none =>
        show fields.metadata.get key = _
        split <;> rfl
      | some plist =>
        show AssocMap.lookupIn key (AssocMap.setIn _ plist fields.metadata.entries) = _
        rw [AssocMap.lookupIn_setIn]
        split <;> rfl
    obtain ⟨members, heq, hn, hmembers⟩ := saveChildren_spec children _ hd hfields
    refine ⟨members, ?_, hn, fun key => ?_⟩
    · rw [brokerSaveDataNode, saveFields_object, heq]
    · rw [hmembers, hlookup]
      rfl

/-! ## The round trip -/

/-- What is compared: the metadata and the permission list. -/
abbrev NodeData := (CString → Option Json) × Option (List PermissionPair)

def dataOf (node : BrokerNode) : NodeData := (node.label.metadata.get, node.label.permissionList)

/-- The data node that a path below `node` leads to; an action is none. -/
def dataAt (node : BrokerNode) (names : List CString) : Option NodeData :=
  (node.find names).bind fun n => if names ≠ [] ∧ isAction n = true then none else some (dataOf n)

/-- The same data nodes, with the same metadata and permission lists. -/
def Same (t t' : BrokerNode) : Prop := ∀ names, dataAt t' names = dataAt t names

/-- No node has a permission list, no data node has a name that begins with `$` or `@`, and no data node is below an
    action. -/
inductive Plain : BrokerNode → Prop
  | intro {t : BrokerNode} (list : t.label.permissionList = none)
      (named : ∀ name c, t.child name = some c → isAction c = false → isMetaKey name = false)
      (actions : ∀ name c, t.child name = some c → isAction c = true → ∀ k ks, dataAt c (k :: ks) = none)
      (children : ∀ name c, t.child name = some c → isAction c = false → Plain c) : Plain t

/-- The node that `t` is loaded into: it has some of the actions and some of the metadata of `t`, and nothing else. -/
structure Base (b t : BrokerNode) : Prop where
  actions : ∀ name a, b.child name = some a → a.children = [] ∧ isAction a = true ∧ isMetaKey name = false ∧
    ∃ c, t.child name = some c ∧ isAction c = true
  metadata : ∀ key, (b.label.metadata.get key).isSome → (t.label.metadata.get key).isSome
  list : b.label.permissionList = none

theorem dataAt_cons_none (h : t.child name = none) (names : List CString) : dataAt t (name :: names) = none := by
  simp [dataAt, h]

/-- Below a data node. -/
theorem dataAt_cons {c : BrokerNode} (h : t.child name = some c) (ha : isAction c = false) (names : List CString) :
    dataAt t (name :: names) = dataAt c names := by
  unfold dataAt
  rw [KeyTree.find_cons, h, Option.bind_some]
  cases names with
  | nil => simp [ha]
  | cons k ks => simp

theorem dataAt_action {c : BrokerNode} (h : t.child name = some c) (ha : isAction c = true) :
    dataAt t [name] = none := by
  simp [dataAt, h, ha]

theorem dataAt_below {c : BrokerNode} (h : t.child name = some c) (k : CString) (ks : List CString) :
    dataAt t (name :: k :: ks) = dataAt c (k :: ks) := by
  unfold dataAt
  rw [KeyTree.find_cons, h, Option.bind_some]
  simp

/-- Below an action without children there is nothing. -/
theorem dataAt_leaf {a : BrokerNode} (h : a.children = []) (k : CString) (ks : List CString) :
    dataAt a (k :: ks) = none := by
  refine dataAt_cons_none ?_ ks
  unfold KeyTree.child
  rw [h]
  rfl

theorem FreshAction.isAction {node : BrokerNode} (h : FreshAction node) : isAction node = true :=
  (h.sound.here.1.action h.invoke).1

theorem childAt_eq_some {value : Json} (h : childAt t name = some value) :
    ∃ c, t.child name = some c ∧ isAction c = false ∧ value = brokerSaveDataNode c := by
  obtain ⟨c, hc, h⟩ := Option.bind_eq_some_iff.mp h
  split at h
  · cases h
  · rename_i ha
    exact ⟨c, hc, by simpa using ha, (Option.some.inj h).symm⟩

theorem childAt_none (h : ∀ c, t.child name = some c → isAction c = true) : childAt t name = none := by
  cases hc : t.child name with
  | none => simp [childAt, hc]
  | some c => simp [childAt, hc, h c hc]

/-- Metadata is kept under keys of metadata, so only a permission list is under another key. -/
theorem fieldAt_other (h : Sound top t) (hkey : isMetaKey key = false) : fieldAt t.label key =
    if key = cstr "?permissions" then permissionListSave t.label.permissionList else none := by
  have hnone : t.label.metadata.get key = none := by
    by_contra hsome
    have := h.here.1.keys key (Option.ne_none_iff_isSome.mp hsome)
    rw [hkey] at this
    cases this
  unfold fieldAt
  rw [hnone]
  split
  · exact Option.or_none
  · rfl

theorem fieldAt_meta (hkey : isMetaKey key = true) : fieldAt t.label key = t.label.metadata.get key := by
  unfold fieldAt
  rw [if_neg]
  rintro rfl
  rw [notMeta_permissions] at hkey
  cases hkey

theorem save_object (t : BrokerNode) : ∃ members, brokerSaveDataNode t = .object members := by
  cases t with
  | node fields children =>
    rw [brokerSaveDataNode, saveFields_object]
    generalize membersOf (saveFields fields) = members
    induction children generalizing members with
    | nil => exact ⟨members, by rw [saveChildren]⟩
    | cons e rest ih =>
      rw [saveChildren]
      split
      · exact ih members
      · exact ih _

/-- What a node is loaded into, by what was saved. -/
structure Back (b t t' : BrokerNode) : Prop where
  metadata : ∀ key, isMetaKey key = true → t'.label.metadata.get key =
    ((childAt t key).or (t.label.metadata.get key)).or (b.label.metadata.get key)
  other : ∀ key, isMetaKey key = false → t'.label.metadata.get key = b.label.metadata.get key
  list : t'.label.permissionList =
    (((childAt t (cstr "?permissions")).or (permissionListSave t.label.permissionList)).map permissionListLoad).getD none
  childMeta : ∀ name, isMetaKey name = true → t'.child name = b.child name
  child : ∀ name c, isMetaKey name = false → t.child name = some c → isAction c = false →
    t'.child name = brokerLoadDataNode newDataNode (brokerSaveDataNode c)
  noChild : ∀ name, isMetaKey name = false → (∀ c, t.child name = some c → isAction c = true) →
    t'.child name = ((if name = cstr "?permissions" then permissionListSave t.label.permissionList else none).map
      (brokerLoadDataNode newDataNode)).getD (b.child name)

/-- The node that is loaded has no node of its own below it. -/
theorem Base.dataAt_none (hb : Base b t) (h : t'.child name = b.child name) (names : List CString) :
    dataAt t' (name :: names) = none := by
  cases hbase : b.child name with
  | none => exact dataAt_cons_none (h.trans hbase) names
  | some a =>
    obtain ⟨hleaf, ha, -⟩ := hb.actions name a hbase
    cases names with
    | nil => exact dataAt_action (h.trans hbase) ha
    | cons k ks => rw [dataAt_below (h.trans hbase), dataAt_leaf hleaf]

/-- Without lists, and without data nodes named like metadata, the metadata and the list come back. -/
theorem Back.data (hback : Back b t t') (h : Sound top t) (hb : Base b t) (hlist : t.label.permissionList = none)
    (hnamed : ∀ name c, t.child name = some c → isAction c = false → isMetaKey name = false) : dataOf t' = dataOf t := by
  have hbase : ∀ key, t.label.metadata.get key = none → b.label.metadata.get key = none := by
    intro key hnone
    by_contra hsome
    have := hb.metadata key (Option.ne_none_iff_isSome.mp hsome)
    rw [hnone] at this
    cases this
  refine Prod.ext (funext fun key => ?_) ?_
  · show t'.label.metadata.get key = t.label.metadata.get key
    cases hkey : isMetaKey key with
    | true =>
      have hchild : childAt t key = none := by
        apply childAt_none
        intro c hc
        by_contra ha
        rw [hnamed key c hc (by simpa using ha)] at hkey
        cases hkey
      rw [hback.metadata key hkey, hchild, Option.none_or]
      cases hget : t.label.metadata.get key with
      | none => exact hbase key hget
      | some value => rfl
    | false =>
      have hnone : t.label.metadata.get key = none := by
        by_contra hsome
        rw [h.here.1.keys key (Option.ne_none_iff_isSome.mp hsome)] at hkey
        cases hkey
      rw [hback.other key hkey, hnone, hbase key hnone]
  · show t'.label.permissionList = t.label.permissionList
    rw [hback.list, hlist]
    cases hchild : childAt t (cstr "?permissions") with
    | none => rfl
    | some value =>
      -- a data node of that name is an object, and no list
      obtain ⟨c, -, -, rfl⟩ := childAt_eq_some hchild
      obtain ⟨members, heq⟩ := save_object c
      rw [heq]
      rfl

end DSLink.DataTree
