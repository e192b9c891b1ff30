import Mathlib
import DSLink.Lib.Replay
import DSLink.Sdk.NodeTree

/-!
# `Sdk.ListCoherent` — a list stream and the node it shows

`dslink_response_list` writes a node in full; afterwards `dslink_node_add_child`, `dslink_node_tree_free` and
`dslink_node_set_meta` write one row each. A requester folds the rows. Both encodings are read off the same function
of the node, `Node.row`: a child goes before metadata of its name, metadata goes before the profile, and what starts
with `$$$` is not shown.

The three writers leave some of it out: the prefix `$$$`, the clash of a child with metadata, the profile behind a
`$is` that is removed, and the metadata of a child that its parent shows. `Edit.Shown` says which edits do not meet
any of this.

## Contents
- `rowChange`, `viewOf`: what a requester makes of the rows. `Node.row`, `foldRows_listRows`.
- `Coherent`, `Edit.Shown`.
- `Follows`: what holds all the time; `edit_follows`, `edit_coherent`.
- `list_view_coherent`; `list_view_hidden`: a key that starts with `$$$`.
-/

namespace DSLink.Responder

/-! ## What a requester has -/

/-- A row as a change of one name: a value, or nothing for a name that is gone. -/
def rowChange : Json → Option (CString × Option Json)
  | .array [.string name, value] => some (name, some value)
  | .object members =>
    if ((Json.object members).get (cstr "change")).bind Json.stringValue = some (cstr "remove") then
      (((Json.object members).get (cstr "name")).bind Json.stringValue).map (fun name => (name, none))
    else none
  | _ => none

/-- The rows of a message for a rid. -/
def Message.rows (rid : Nat) : Message → List Json
  | .stream (some (.integer r)) rows => if r = rid then rows else []
  | _ => []

/-- The rows folded, the first one first. -/
def foldRows (rows : List Json) : CString → Option Json := replay (fun _ => none) (rows.filterMap rowChange)

/-- What the messages for a rid add up to. -/
def viewOf (rid : Nat) (sent : List Message) : CString → Option Json := foldRows (sent.flatMap (Message.rows rid))

/-- The messages for the rid, from the one at `start` on, add up to what a list request of the node would send now. -/
def Coherent (names : List CString) (rid start : Nat) (σ : State) : Prop :=
  ∀ node, σ.superRoot.find names = some node → viewOf rid (σ.sent.drop start) = foldRows (listRows node)

/-! ## What a node shows -/

/-- The keys `dslink_response_list` leaves out. -/
def hidden (key : CString) : Bool := key.take 3 = cstr "$$$"

/-- `dslink_node_get_meta`. -/
def NodeData.getMeta (data : NodeData) (key : CString) : Option Json := data.metaData.bind (fun m => m.get key)

/-- The object of `dslink_response_list_append_child`. -/
def childObject (child : NodeData) : Json :=
  appendMeta child.metaData (cstr "$type") (appendMeta child.metaData (cstr "$invokable")
    (appendMeta child.metaData (cstr "$permission") (appendMeta child.metaData (cstr "$name")
      (.object [(cstr "$is", .string child.profile)]))))

/-- The metadata of a child that its parent shows. -/
def childKeys : List CString := [cstr "$name", cstr "$permission", cstr "$invokable", cstr "$type"]

/-- The first row of a listing. -/
def NodeData.profileRow (data : NodeData) (key : CString) : Option Json :=
  if key = cstr "$is" then some (.string data.profile) else none

/-- What a node shows of itself under a name. -/
def NodeData.ownRow (data : NodeData) (key : CString) : Option Json :=
  (if hidden key then none else data.getMeta key).or (data.profileRow key)

/-- What a node shows under a name. -/
def Node.row (node : Node) (key : CString) : Option Json :=
  ((node.child key).map (fun c => childObject c.data)).or (node.data.ownRow key)

theorem rowChange_nameRow (name : CString) (value : Json) : rowChange (nameRow name value) = some (name, some value) := rfl

theorem lookupIn_map_snd {α β : Type} (f : α → β) (key : CString) (l : List (CString × α)) :
    AssocMap.lookupIn key (l.map (fun e => (e.1, f e.2))) = (AssocMap.lookupIn key l).map f := by
  induction l with
  | nil => rfl
  | cons e l ih =>
    simp only [List.map_cons, AssocMap.lookupIn]
    split
    · rfl
    · exact ih

theorem lookupIn_concat {α : Type} {name key : CString} {a : α} {l : List (CString × α)}
    (h : AssocMap.lookupIn name l = none) :
    AssocMap.lookupIn key (l ++ [(name, a)]) = if key = name then some a else AssocMap.lookupIn key l := by
  induction l with
  | nil =>
    rw [List.nil_append]
    simp only [AssocMap.lookupIn, eq_comm]
  | cons e l ih =>
    simp only [List.cons_append, AssocMap.lookupIn] at h ⊢
    split at h
    · cases h
    · rename_i hne
      rw [ih h]
      split
      · rename_i hkey
        rw [if_neg (fun he => hne (hkey.trans he))]
      · rfl

theorem filterMap_map_some {α β γ : Type} {f : α → β} {g : β → Option γ} {h : α → γ} {l : List α}
    (hl : ∀ a ∈ l, g (f a) = some (h a)) : (l.map f).filterMap g = l.map h := by
  induction l with
  | nil => rfl
  | cons a l ih =>
    rw [List.map_cons, List.map_cons, List.filterMap_cons_some (hl a List.mem_cons_self),
      ih (fun b hb => hl b (List.mem_cons_of_mem _ hb))]

/-- The changes that a full listing makes. -/
theorem listRows_changes {node : Node} {path name : CString} (h : node.made path name = true) :
    (listRows node).filterMap rowChange = (cstr "$is", some (.string node.data.profile)) ::
      ((((node.data.metaData.map AssocMap.entries).getD []).filter (fun e => !hidden e.1)).map
          (fun e => (e.1, some e.2)) ++
        (node.children.map (fun c => (c.1, childObject c.2.data))).map (fun e => (e.1, some e.2))) := by
  have hmeta : ∀ e : CString × Json, decide (e.1.take 3 ≠ cstr "$$$") = !hidden e.1 := by
    intro e
    exact decide_not
  unfold listRows
  rw [List.cons_append, List.filterMap_cons_some (rowChange_nameRow _ _), List.filterMap_append]
  rw [filterMap_map_some (fun e _ => rowChange_nameRow e.1 e.2), List.map_map]
  rw [filterMap_map_some (h := fun c => (c.1, some (childObject c.2.data)))]
  · simp only [hmeta]
    rfl
  · intro c hc
    have hname : c.2.data.name = c.1 := (Node.made_iff.mp ((Node.made_iff.mp h).2.2.2 c hc)).2.1
    rw [← hname]
    rfl

/-- A full listing shows what the node shows. -/
theorem foldRows_listRows {node : Node} {path name : CString} (h : node.made path name = true) :
    foldRows (listRows node) = node.row := by
  funext key
  have hkeys : ((node.children.map (fun c => (c.1, childObject c.2.data))).map Prod.fst).Nodup := by
    rw [List.map_map]
    exact Node.made_nodup h
  have hmeta : (if !hidden key then AssocMap.lookupIn key ((node.data.metaData.map AssocMap.entries).getD []) else none) =
      if hidden key then none else node.data.getMeta key := by
    unfold NodeData.getMeta
    cases node.data.metaData <;> cases hidden key <;> rfl
  have hnodup : (((node.data.metaData.map AssocMap.entries).getD []).map Prod.fst).Nodup := by
    cases node.data.metaData with
    | none => exact List.nodup_nil
    | some m => exact m.nodup
  unfold foldRows
  rw [listRows_changes h, replay_cons, replay_append, replay_entries hkeys, 
    replay_filter (p := fun key => !hidden key) hnodup, 
    lookupIn_map_snd (fun c : Node => childObject c.data), hmeta]
  unfold Node.row NodeData.ownRow NodeData.profileRow
  congr 2
  by_cases his : key = cstr "$is"
  · subst his
    rw [Function.update_self, if_pos rfl]
  · rw [Function.update_of_ne his, if_neg his]

/-! ## What an edit does to what is shown -/

section

variable {node child : Node} {name key path : CString} {sub : List CString} {value : Option Json} {f : Node → Node}
  {m : AssocMap CString Json}

theorem row_addChild (hno : node.child child.data.name = none) :
    (addChild child node).row = Function.update node.row child.data.name (some (childObject child.data)) := by
  funext key
  have hchild : (addChild child node).child key = if key = child.data.name then some child else node.child key := by
    exact lookupIn_concat hno
  unfold Node.row
  rw [hchild]
  by_cases hkey : key = child.data.name
  · subst hkey
    rw [Function.update_self, if_pos rfl]
    rfl
  · rw [Function.update_of_ne hkey, if_neg hkey]
    rfl

theorem row_dropChild (hmade : node.made path name = true) :
    (dropChild key node).row = Function.update node.row key (node.data.ownRow key) := by
  funext key'
  have hchild : (dropChild key node).child key' = if key' = key then none else node.child key' :=
    AssocMap.lookupIn_eraseIn (Node.made_nodup hmade)
  unfold Node.row
  rw [hchild]
  by_cases hkey : key' = key
  · subst hkey
    rw [Function.update_self, if_pos rfl]
    rfl
  · rw [Function.update_of_ne hkey, if_neg hkey]
    rfl

/-- A child shows what its data says. -/
theorem row_modifyAt_cons {c : Node} (hc : node.child key = some c) :
    (node.modifyAt f (key :: sub)).row =
      Function.update node.row key (some (childObject (c.modifyAt f sub).data)) := by
  funext key'
  unfold Node.row
  rw [Node.child_modifyAt, Node.data_modifyAt_cons]
  by_cases hkey : key' = key
  · subst hkey
    rw [Function.update_self, if_pos rfl, hc]
    rfl
  · rw [Function.update_of_ne hkey, if_neg hkey]

/-- An edit that leaves the data of the child alone is not seen. -/
theorem row_modifyAt_same {c : Node} (hc : node.child key = some c) (hf : (c.modifyAt f sub).data = c.data) :
    (node.modifyAt f (key :: sub)).row = node.row := by
  rw [row_modifyAt_cons hc, hf]
  apply Function.update_eq_self_iff.mpr
  unfold Node.row
  rw [hc]
  rfl

theorem getMeta_newMeta (data : NodeData) : (data.withMeta (newMeta name value data.metaData)).getMeta key =
    if key = name then value else data.getMeta key := by
  unfold NodeData.getMeta NodeData.withMeta newMeta
  dsimp only [Option.bind_some]
  have hget : (data.metaData.getD .empty).get key = data.metaData.bind (fun m => m.get key) := by
    cases data.metaData <;> rfl
  cases value with
  | none => rw [Option.elim_none, AssocMap.get_erase, hget]
  | some v => rw [Option.elim_some, AssocMap.get_set, hget]

/-- What a node shows under a name when its metadata is set there. -/
theorem row_newMeta : (mapData (.withMeta (newMeta name value node.data.metaData)) node).row =
    Function.update node.row name (((node.child name).map (fun c => childObject c.data)).or
      ((if hidden name then none else value).or (node.data.profileRow name))) := by
  funext key
  have hown : (node.data.withMeta (newMeta name value node.data.metaData)).ownRow key =
      (if hidden key then none else if key = name then value else node.data.getMeta key).or
        (node.data.profileRow key) := by
    unfold NodeData.ownRow
    rw [getMeta_newMeta]
    rfl
  show ((node.child key).map _).or ((node.data.withMeta _).ownRow key) = _
  rw [hown]
  by_cases hkey : key = name
  · subst hkey
    rw [Function.update_self, if_pos rfl]
  · rw [Function.update_of_ne hkey, if_neg hkey]
    rfl

end

/-! ## The edits that are seen -/

/-- An edit whose row is what it does to the listing: a child that goes uncovers nothing, a key that is set is not
    hidden and no child has its name, a key that is removed is not `$is`; without a link, and for the metadata of a
    child, nothing changes that is shown. -/
def Edit.Shown (node : Node) : Edit → Prop
  | .addChild _ _ => True
  | .remove [name] => name ≠ cstr "$is" ∧ (hidden name = true ∨ node.data.getMeta name = none)
  | .remove _ => True
  | .setMeta [] true name (some value) =>
    (node.child name = none → hidden name = false) ∧ ∀ c, node.child name = some c → value = childObject c.data
  | .setMeta [] true name none => node.data.metaData = none ∨ node.child name = none ∧ name ≠ cstr "$is"
  | .setMeta [] false name value => (node.child name).isSome ∨ hidden name = true ∨
    value.or (node.data.profileRow name) = (node.data.getMeta name).or (node.data.profileRow name)
  | .setMeta [key] _ name value =>
    name ∈ childKeys → ∀ c, node.child key = some c → value = c.data.getMeta name
  | .setMeta _ _ _ _ => True

/-- The condition, for the node that the names lead to. -/
def Shown (names : List CString) (σ : State) (e : Edit) : Prop :=
  ∀ node, σ.superRoot.find names = some node → e.Shown node

/-- What holds from the list request on. -/
structure Follows (names : List CString) (rid start : Nat) (σ : State) : Prop where
  made : σ.Made
  since : start ≤ σ.sent.length
  listed : ∀ node, σ.superRoot.find names = some node →
    ∃ key, σ.listSubs.get (Node.pathAt [] names) = some ⟨key, rid⟩
  /-- No path below the node is listed under the rid. -/
  apart : ∀ sub s, sub ≠ [] → σ.listSubs.get (Node.pathAt [] (names ++ sub)) = some s → s.rid ≠ rid

section

variable {σ σ' : State} {names sub : List CString} {rid start : Nat} {node : Node} {f : Node → Node} {row : Json}

/-- Only a row for the node itself goes out for the rid. -/
theorem Follows.told (hi : Follows names rid start σ) (hn : σ.superRoot.find names = some node) (sub : List CString)
    (row : Json) :
    (σ.told (Node.pathAt [] (names ++ sub)) row).flatMap (Message.rows rid) = if sub = [] then [row] else [] := by
  unfold State.told
  by_cases hsub : sub = []
  · subst hsub
    obtain ⟨key, hkey⟩ := hi.listed node hn
    rw [List.append_nil, hkey, if_pos rfl]
    simp [Message.rows]
  · rw [if_neg hsub]
    cases hs : σ.listSubs.get (Node.pathAt [] (names ++ sub)) with
    | none => rfl
    | some s =>
      have hne : ¬ (s.rid : Int) = rid := fun he => hi.apart sub s hsub hs (Int.ofNat_inj.mp he)
      simp [Message.rows, hne]

/-- What the messages add up to after an edit. -/
theorem coherent_iff {msgs : List Message} {changes : List (CString × Option Json)} (hi : Follows names rid start σ)
    (hmade' : σ'.Made) (hg : Coherent names rid start σ) (hn : σ.superRoot.find names = some node)
    (hroot : σ'.superRoot = σ.superRoot.modifyAt f (names ++ sub)) (hsent : σ'.sent = σ.sent ++ msgs)
    (hchanges : (msgs.flatMap (Message.rows rid)).filterMap rowChange = changes) :
    Coherent names rid start σ' ↔ replay node.row changes = (node.modifyAt f sub).row := by
  have hn' : σ'.superRoot.find names = some (node.modifyAt f sub) := by
    rw [hroot, Node.find_modifyAt, hn]
    rfl
  obtain ⟨name, hmade⟩ := hi.made.find hn
  obtain ⟨name', hmade'⟩ := hmade'.find hn'
  have hview : viewOf rid (σ'.sent.drop start) = replay node.row changes := by
    rw [hsent, List.drop_append_of_le_length hi.since]
    unfold viewOf foldRows
    rw [List.flatMap_append, List.filterMap_append, replay_append, hchanges, ← foldRows_listRows hmade, ← hg node hn]
    rfl
  constructor
  · intro h
    rw [← hview, h _ hn', foldRows_listRows hmade']
  · intro h node' hn''
    obtain rfl := Option.some.inj (hn'.symm.trans hn'')
    rw [hview, h, foldRows_listRows hmade']

/-! ## One edit -/

theorem Follows.next (hi : Follows names rid start σ) (hmade : σ'.Made) (hsent : σ.sent <+: σ'.sent)
    (hfewer : ∀ q s, σ'.listSubs.get q = some s → σ.listSubs.get q = some s)
    (hlisted : ∀ node', σ'.superRoot.find names = some node' → (∃ node, σ.superRoot.find names = some node) ∧
      σ'.listSubs.get (Node.pathAt [] names) = σ.listSubs.get (Node.pathAt [] names)) :
    Follows names rid start σ' where
  made := hmade
  since := hi.since.trans hsent.length_le
  listed := by
    intro node' hn'
    obtain ⟨⟨node, hn⟩, hsame⟩ := hlisted node' hn'
    rw [hsame]
    exact hi.listed node hn
  apart := fun sub s hsub hs => hi.apart sub s hsub (hfewer _ s hs)

/-- After a change at the node or below it, the node is where it was. -/
theorem found_before (hroot : σ'.superRoot = σ.superRoot.modifyAt f (names ++ sub)) {node' : Node}
    (hn' : σ'.superRoot.find names = some node') : ∃ node, σ.superRoot.find names = some node := by
  rw [hroot, Node.find_modifyAt] at hn'
  obtain ⟨node, hn, -⟩ := Option.map_eq_some_iff.mp hn'
  exact ⟨node, hn⟩

/-- The path that is told of an edit. -/
theorem edited_path (hσ : σ.Made) {p : Node} (hp : σ.superRoot.find (names ++ sub) = some p) :
    p.data.path = Node.pathAt [] (names ++ sub) := by
  obtain ⟨name, hmade⟩ := hσ.find hp
  exact Node.made_data_path hmade

theorem nodeAdd_coherent {child : Node} (hi : Follows names rid start σ) (hg : Coherent names rid start σ)
    (h : σ.nodeAdd (names ++ sub) child = some σ') : Follows names rid start σ' ∧ Coherent names rid start σ' := by
  obtain ⟨p, hp, hno, -, hroot, hlist, hsent⟩ := nodeAdd_spec h
  have hmade := nodeAdd_made hi.made h
  constructor
  · apply hi.next hmade
    · exact hsent ▸ List.prefix_append _ _
    · exact fun q s hq => hlist ▸ hq
    · exact fun node' hn' => ⟨found_before hroot hn', by rw [hlist]⟩
  · obtain ⟨node, hn, hp'⟩ := Option.bind_eq_some_iff.mp (Node.find_append.symm.trans hp)
    have htold := hi.told hn sub (childRow child.data)
    rw [← edited_path hi.made hp] at htold
    apply (coherent_iff hi hmade hg hn hroot hsent (congrArg _ htold)).mpr
    cases sub with
    | nil =>
      cases hp'
      exact (row_addChild hno).symm
    | cons key sub =>
      obtain ⟨c, hc, hp'⟩ := Option.bind_eq_some_iff.mp (Node.find_cons.symm.trans hp')
      symm
      apply row_modifyAt_same hc
      cases sub with
      | nil => rfl
      | cons key' sub =>
        exact Node.data_modifyAt_cons _

theorem ownRow_eq_none {data : NodeData} {key : CString} :
    data.ownRow key = none ↔ key ≠ cstr "$is" ∧ (hidden key = true ∨ data.getMeta key = none) := by
  unfold NodeData.ownRow NodeData.profileRow
  rw [Option.or_eq_none_iff]
  by_cases hh : hidden key = true <;> by_cases his : key = cstr "$is" <;> simp [hh, his]

/-- A node that is removed is not found, and what was below it neither. -/
theorem find_removed {parent : List CString} {name : CString} (hσ : σ.Made) (h : σ.nodeRemove parent name = some σ') :
    σ'.superRoot.find (parent ++ [name]) = none := by
  obtain ⟨p, nd, hp, -, hroot, -⟩ := nodeRemove_spec h
  obtain ⟨name', hmade⟩ := hσ.find hp
  have hfind : σ'.superRoot.find parent = some (dropChild name p) := by
    rw [hroot, Node.find_modifyAt_self, hp]
    rfl
  rw [Node.find_append, hfind, Option.bind_some, Node.find_cons]
  have hno : (dropChild name p).child name = none :=
    (AssocMap.lookupIn_eraseIn (Node.made_nodup hmade)).trans (if_pos rfl)
  rw [hno]
  rfl

theorem removeSelf_coherent (hi : Follows names rid start σ) (hg : Coherent names rid start σ)
    (h : σ.nodeRemoveAt names = some σ') : Follows names rid start σ' ∧ Coherent names rid start σ' := by
  rcases List.eq_nil_or_concat names with rfl | ⟨parent, name, rfl⟩
  · cases h
    exact ⟨hi, hg⟩
  · rw [List.concat_eq_append] at *
    rw [nodeRemoveAt_concat] at h
    obtain ⟨p, nd, -, -, -, -, hfewer, hsent⟩ := nodeRemove_spec h
    have hgone := find_removed hi.made h
    constructor
    · apply hi.next (nodeRemove_made hi.made h) (hsent ▸ List.prefix_append _ _) hfewer
      intro node' hn'
      cases hgone.symm.trans hn'
    · intro node' hn'
      cases hgone.symm.trans hn'

theorem removeBelow_coherent {key : CString} (hi : Follows names rid start σ) (hg : Coherent names rid start σ)
    (h : σ.nodeRemove (names ++ sub) key = some σ') :
    Follows names rid start σ' ∧ (Coherent names rid start σ' ↔ Shown names σ (.remove (sub ++ [key]))) := by
  obtain ⟨p, nd, hp, hnd, hroot, hkeeps, hfewer, hsent⟩ := nodeRemove_spec h
  have hmade := nodeRemove_made hi.made h
  obtain ⟨pname, hpmade⟩ := hi.made.find hp
  have hndmade := Node.made_child hpmade hnd
  obtain ⟨node, hn, hp'⟩ := Option.bind_eq_some_iff.mp (Node.find_append.symm.trans hp)
  have hpath : Node.pathAt [] names ∉ nd.paths := by
    intro hm
    have hlen := (Node.prefix_of_mem_paths hndmade hm).length_le
    have hle : (Node.pathAt [] names).length ≤ (Node.pathAt [] (names ++ sub)).length := by
      rw [Node.pathAt_append]
      exact Node.prefix_pathAt.length_le
    exact absurd (Node.childPath_length.trans_le hlen) (Nat.not_lt.mpr hle)
  constructor
  · apply hi.next hmade (hsent ▸ List.prefix_append _ _) hfewer
    exact fun node' hn' => ⟨found_before hroot hn', hkeeps _ hpath⟩
  · have htold := hi.told hn sub (removeRow nd.data.name)
    rw [← edited_path hi.made hp] at htold
    rw [coherent_iff hi hmade hg hn hroot hsent (congrArg _ htold)]
    cases sub with
    | nil =>
      cases hp'
      rw [Node.modifyAt_nil, row_dropChild hpmade, if_pos rfl]
      have hname : nd.data.name = key := (Node.made_iff.mp hndmade).2.1
      show Function.update p.row nd.data.name none = _ ↔ _
      rw [hname, (Function.update_injective _ _).eq_iff, eq_comm, ownRow_eq_none]
      constructor
      · intro hrow node' hn'
        obtain rfl := Option.some.inj (hn.symm.trans hn')
        exact hrow
      · exact fun hshown => hshown p hn
    | cons k sub =>
      obtain ⟨c, hc, hp'⟩ := Option.bind_eq_some_iff.mp (Node.find_cons.symm.trans hp')
      have hdata : (c.modifyAt (dropChild key) sub).data = c.data := by
        cases sub with
        | nil => rfl
        | cons k' sub => exact Node.data_modifyAt_cons _
      constructor
      · intro _ node' _
        cases sub <;> trivial
      · exact fun _ => (row_modifyAt_same hc hdata).symm

/-! ## Metadata -/

theorem get_appendMeta (members : Object) (metaData : Option (AssocMap CString Json)) (name key : CString) :
    ∃ members', appendMeta metaData name (.object members) = .object members' ∧
      (Json.object members').get key =
        if key = name then (metaData.bind (fun m => m.get name)).or ((Json.object members).get key)
        else (Json.object members).get key := by
  unfold appendMeta
  cases metaData.bind (fun m => m.get name) with
  | none => exact ⟨members, rfl, by simp⟩
  | some value =>
    refine ⟨_, rfl, ?_⟩
    show AssocMap.lookupIn key (AssocMap.setIn name value members) = _
    rw [AssocMap.lookupIn_setIn]
    rfl

/-- The object of a child has the four keys as the metadata has them. -/
theorem get_childObject (child : NodeData) {key : CString} (hkey : key ∈ childKeys) :
    (childObject child).get key = child.getMeta key := by
  obtain ⟨m1, h1, g1⟩ := get_appendMeta [(cstr "$is", .string child.profile)] child.metaData (cstr "$name") key
  obtain ⟨m2, h2, g2⟩ := get_appendMeta m1 child.metaData (cstr "$permission") key
  obtain ⟨m3, h3, g3⟩ := get_appendMeta m2 child.metaData (cstr "$invokable") key
  obtain ⟨m4, h4, g4⟩ := get_appendMeta m3 child.metaData (cstr "$type") key
  have hobj : childObject child = .object m4 := by
    unfold childObject
    rw [h1, h2, h3, h4]
  rw [hobj, g4, g3, g2, g1]
  simp only [childKeys, List.mem_cons, List.not_mem_nil, or_false] at hkey
  unfold NodeData.getMeta
  rcases hkey with rfl | rfl | rfl | rfl <;> simp +decide [Json.get, AssocMap.lookupIn]

/-- Other metadata of a child is shown if and only if one of the four keys has another value. -/
theorem childObject_newMeta {data : NodeData} {name : CString} {value : Option Json} :
    childObject data = childObject (data.withMeta (newMeta name value data.metaData)) ↔
      (name ∈ childKeys → value = data.getMeta name) := by
  constructor
  · intro h hname
    have hget := get_childObject (data.withMeta (newMeta name value data.metaData)) hname
    rw [← h, get_childObject data hname, getMeta_newMeta, if_pos rfl] at hget
    exact hget.symm
  · intro h
    have hsame : ∀ key ∈ childKeys,
        (data.withMeta (newMeta name value data.metaData)).getMeta key = data.getMeta key := by
      intro key hkey
      rw [getMeta_newMeta]
      split
      · rename_i he
        rw [he, h (he ▸ hkey)]
      · rfl
    simp only [childKeys, List.forall_mem_cons] at hsame
    obtain ⟨h1, h2, h3, h4, -⟩ := hsame
    unfold NodeData.getMeta at h1 h2 h3 h4
    unfold childObject appendMeta
    rw [h1, h2, h3, h4]
    rfl

/-- The condition is about the node that the names lead to. -/
theorem shown_iff {e : Edit} (hn : σ.superRoot.find names = some node) : Shown names σ e ↔ e.Shown node := by
  constructor
  · exact fun h => h node hn
  · intro h node' hn'
    obtain rfl := Option.some.inj (hn.symm.trans hn')
    exact h

/-- The metadata of a node below. -/
theorem setMeta_shown {key name : CString} {q c : Node} {value : Option Json} {linked : Bool}
    (hn : σ.superRoot.find names = some node) (hc : node.child key = some c) (hq : c.find sub = some q) :
    node.row = (node.modifyAt (mapData (.withMeta (newMeta name value q.data.metaData))) (key :: sub)).row ↔
      Shown names σ (.setMeta (key :: sub) linked name value) := by
  rw [shown_iff hn]
  cases sub with
  | nil =>
    cases hq
    have hrow : node.row key = some (childObject q.data) := by
      unfold Node.row
      rw [hc]
      rfl
    rw [row_modifyAt_cons hc, eq_comm, Function.update_eq_self_iff, hrow, Option.some_inj, eq_comm]
    rw [Node.modifyAt_nil]
    show childObject q.data = childObject (q.data.withMeta _) ↔ _
    rw [childObject_newMeta]
    constructor
    · intro h hname c' hc'
      obtain rfl := Option.some.inj (hc.symm.trans hc')
      exact h hname
    · exact fun h hname => h hname q hc
  | cons k sub =>
    constructor
    · exact fun _ => (by trivial)
    · intro _
      exact (row_modifyAt_same hc (Node.data_modifyAt_cons _)).symm

/-- Metadata that is set with a link, or removed. -/
theorem setMeta_own {name : CString} {value : Option Json} (hset : ¬ (node.data.metaData = none ∧ value = none)) :
    Function.update node.row name value =
        (mapData (.withMeta (newMeta name value node.data.metaData)) node).row ↔
      Edit.Shown node (.setMeta [] true name value) := by
  rw [row_newMeta, (Function.update_injective _ _).eq_iff]
  cases value with
  | none =>
    have hmeta : node.data.metaData ≠ none := fun h => hset ⟨h, rfl⟩
    show none = _ ↔ node.data.metaData = none ∨ node.child name = none ∧ name ≠ cstr "$is"
    rw [or_iff_right hmeta, eq_comm, Option.or_eq_none_iff, Option.map_eq_none_iff, ite_self, Option.none_or]
    unfold NodeData.profileRow
    by_cases his : name = cstr "$is" <;> simp [his]
  | some v =>
    show some v = _ ↔ (node.child name = none → hidden name = false) ∧
      ∀ c, node.child name = some c → v = childObject c.data
    cases hc : node.child name with
    | some c => simp
    | none =>
      rw [Option.map_none, Option.none_or]
      cases hh : hidden name with
      | false => simp
      | true =>
        have his : name ≠ cstr "$is" := by
          rintro rfl
          revert hh
          decide
        simp [NodeData.profileRow, his]

/-- A node without metadata has nothing to remove. -/
theorem unset_shown {name : CString} {q : Node} {linked : Bool} (hq : node.find sub = some q)
    (hm : q.data.metaData = none) : Edit.Shown node (.setMeta sub linked name none) := by
  have hget : ∀ key, q.data.getMeta key = none := by
    intro key
    unfold NodeData.getMeta
    rw [hm]
    rfl
  rcases sub with _ | ⟨key, _ | ⟨key', sub⟩⟩
  · cases hq
    cases linked with
    | true => exact .inl hm
    | false => exact .inr (.inr (by rw [hget]))
  · intro _ c hc
    rw [Node.find_cons, hc] at hq
    cases hq
    exact (hget name).symm
  · trivial

/-- What a node shows after its metadata was set without a link. -/
theorem setMeta_unlinked {name : CString} {value : Option Json} :
    node.row = (mapData (.withMeta (newMeta name value node.data.metaData)) node).row ↔
      Edit.Shown node (.setMeta [] false name value) := by
  rw [row_newMeta, eq_comm, Function.update_eq_self_iff, eq_comm]
  show ((node.child name).map _).or (node.data.ownRow name) = _ ↔ (node.child name).isSome ∨ hidden name = true ∨
    value.or (node.data.profileRow name) = (node.data.getMeta name).or (node.data.profileRow name)
  unfold NodeData.ownRow
  cases node.child name with
  | some c => simp
  | none =>
    cases hidden name with
    | true => simp
    | false =>
      simp only [Option.map_none, Option.none_or, Bool.false_eq_true, if_false, Option.isSome_none, false_or]
      exact eq_comm

theorem nodeSetMeta_coherent {name : CString} {value : Option Json} (hi : Follows names rid start σ)
    (hg : Coherent names rid start σ) (h : σ.nodeSetMeta (names ++ sub) name value = some σ') :
    Follows names rid start σ' ∧ (Coherent names rid start σ' ↔ Shown names σ (.setMeta sub true name value)) := by
  obtain ⟨q, hq, hcases⟩ := nodeSetMeta_spec h
  obtain ⟨node, hn, hq'⟩ := Option.bind_eq_some_iff.mp (Node.find_append.symm.trans hq)
  have hmade := nodeSetMeta_made hi.made h
  rcases hcases with ⟨hm, rfl, rfl⟩ | ⟨hset, hroot, hlist, hsent⟩
  · exact ⟨hi, fun _ => (shown_iff hn).mpr (unset_shown hq' hm), fun _ => hg⟩
  · constructor
    · apply hi.next hmade
      · exact hsent ▸ List.prefix_append _ _
      · exact fun q s hq => hlist ▸ hq
      · exact fun node' hn' => ⟨found_before hroot hn', by rw [hlist]⟩
    · have htold := hi.told hn sub (metaRow name value)
      rw [← edited_path hi.made hq] at htold
      rw [coherent_iff hi hmade hg hn hroot hsent (congrArg _ htold)]
      cases sub with
      | nil =>
        cases hq'
        have hchange : [metaRow name value].filterMap rowChange = [(name, value)] := by
          cases value <;> rfl
        rw [if_pos rfl, hchange, shown_iff hn]
        exact setMeta_own hset
      | cons key sub =>
        obtain ⟨c, hc, hq'⟩ := Option.bind_eq_some_iff.mp (Node.find_cons.symm.trans hq')
        exact setMeta_shown hn hc hq'

theorem nodeSetMetaUnlinked_coherent {name : CString} {value : Option Json} (hi : Follows names rid start σ)
    (hg : Coherent names rid start σ) (h : σ.nodeSetMetaUnlinked (names ++ sub) name value = some σ') :
    Follows names rid start σ' ∧ (Coherent names rid start σ' ↔ Shown names σ (.setMeta sub false name value)) := by
  obtain ⟨q, hq, hcases⟩ := nodeSetMetaUnlinked_spec h
  obtain ⟨node, hn, hq'⟩ := Option.bind_eq_some_iff.mp (Node.find_append.symm.trans hq)
  have hmade := nodeSetMetaUnlinked_made hi.made h
  rcases hcases with ⟨hm, rfl, rfl⟩ | ⟨hroot, hlist, hsent⟩
  · exact ⟨hi, fun _ => (shown_iff hn).mpr (unset_shown hq' hm), fun _ => hg⟩
  · constructor
    · apply hi.next hmade
      · exact hsent ▸ List.prefix_rfl
      · exact fun q s hq => hlist ▸ hq
      · exact fun node' hn' => ⟨found_before hroot hn', by rw [hlist]⟩
    · rw [coherent_iff hi hmade hg hn hroot (hsent.trans (List.append_nil _).symm) rfl]
      cases sub with
      | nil =>
        cases hq'
        rw [shown_iff hn]
        exact setMeta_unlinked
      | cons key sub =>
        obtain ⟨c, hc, hq'⟩ := Option.bind_eq_some_iff.mp (Node.find_cons.symm.trans hq')
        exact setMeta_shown hn hc hq'

/-- One edit. -/
theorem edit_coherent {e : Edit} (hi : Follows names rid start σ) (hg : Coherent names rid start σ)
    (h : edit names σ e = some σ') :
    Follows names rid start σ' ∧ (Coherent names rid start σ' ↔ Shown names σ e) := by
  cases e with
  | addChild sub child =>
    obtain ⟨h1, h2⟩ := nodeAdd_coherent hi hg h
    exact ⟨h1, fun _ _ _ => (by trivial), fun _ => h2⟩
  | remove sub =>
    rcases List.eq_nil_or_concat sub with rfl | ⟨sub, key, rfl⟩
    · unfold edit at h
      dsimp only at h
      rw [List.append_nil] at h
      obtain ⟨h1, h2⟩ := removeSelf_coherent hi hg h
      exact ⟨h1, fun _ _ _ => (by trivial), fun _ => h2⟩
    · unfold edit at h
      dsimp only at h
      rw [List.concat_eq_append] at *
      rw [← List.append_assoc, nodeRemoveAt_concat] at h
      exact removeBelow_coherent hi hg h
  | setMeta sub linked name value =>
    cases linked with
    | true => exact nodeSetMeta_coherent hi hg h
    | false => exact nodeSetMetaUnlinked_coherent hi hg h

end

/-! ## Runs -/

/-- A node is listed under a rid of 32 bits that no path below the node is listed under, and then it and what is below
    it is edited. After every edit the messages for the rid add up to what a list request would send, if and only if
    every edit meets the condition. -/
theorem list_view_coherent {σ₀ σ σ' : State} {names : List CString} {node : Node} {rid : Nat} {es : List Edit}
    (h₀ : Reach stepOrEdit (fun _ _ => True) (· = init) σ₀) (hn : σ₀.superRoot.find names = some node)
    (hrid : rid < 2 ^ 32)
    (hfree : ∀ sub s, sub ≠ [] → σ₀.listSubs.get (Node.pathAt node.data.path sub) = some s → s.rid ≠ rid)
    (hlist : σ₀.responseList (some (.integer rid)) node = some σ) (hrun : runFrom (edit names) σ es = some σ') :
    (∀ es' τ, es' <+: es → runFrom (edit names) σ es' = some τ → Coherent names rid σ₀.sent.length τ) ↔
      RunOk (edit names) (Shown names) σ es := by
  have hmade₀ := reach_made h₀
  obtain ⟨name, hmade⟩ := hmade₀.find hn
  have hpath : node.data.path = Node.pathAt [] names := Node.made_data_path hmade
  have hu32 : u32 (some (.integer rid)) = rid := by
    show (((rid : Int) % 4294967296)).toNat = rid
    omega
  obtain ⟨hroot, hsent, key, hsubs⟩ := responseList_spec hlist
  rw [hu32] at hsubs
  have hi : Follows names rid σ₀.sent.length σ := by
    constructor
    · exact hmade₀.congr hroot
    · rw [hsent, List.length_append]
      exact Nat.le_add_right _ _
    · intro _ _
      rw [hsubs, ← hpath]
      exact ⟨key, AssocMap.get_set_self _ _ _⟩
    · intro sub s hsub hs
      rw [Node.pathAt_append, ← hpath] at hs
      rw [hsubs, AssocMap.get_set_ne] at hs
      · exact hfree sub s hsub hs
      · intro he
        have hlen : node.data.path.length < (Node.pathAt node.data.path sub).length := Node.pathAt_length hsub
        rw [he] at hlen
        exact absurd hlen (Nat.lt_irrefl _)
  have hg : Coherent names rid σ₀.sent.length σ := by
    intro node' hn'
    rw [hroot, hn] at hn'
    obtain rfl := Option.some.inj hn'
    rw [hsent, List.drop_append_of_le_length (Nat.le_refl _), List.drop_length, List.nil_append]
    simp [viewOf, Message.rows]
  exact forall_prefix_iff_runOk (Follows names rid σ₀.sent.length) (Coherent names rid σ₀.sent.length)
    (fun _ _ _ hi hg hs => edit_coherent hi hg hs) hi hg hrun

/-- A node that was prepared: it has metadata of its own. -/
def preparedChild : Node :=
  .mk ⟨cstr "/c", cstr "c", cstr "node", some (AssocMap.empty.set (cstr "$name") (.string (cstr "C"))), none, none, false,
    false⟩ []

/-- The root is listed, gets a key and a child, and the child gets a key that its parent does not show. -/
theorem list_view_coherent_three : ∃ σ σ', init.responseList (some (.integer 1)) init.superRoot = some σ ∧
    runFrom (edit []) σ [.setMeta [] true (cstr "@x") (some (.bool true)), .addChild [] preparedChild,
      .setMeta [cstr "c"] true (cstr "@y") (some .null)] = some σ' ∧ Coherent [] 1 0 σ' := by
  have hrun : ((init.responseList (some (.integer 1)) init.superRoot).bind (fun σ => runFrom (edit []) σ
      [.setMeta [] true (cstr "@x") (some (.bool true)), .addChild [] preparedChild,
        .setMeta [cstr "c"] true (cstr "@y") (some .null)])).isSome = true := by decide
  obtain ⟨σ', hσ'⟩ := Option.isSome_iff_exists.mp hrun
  obtain ⟨σ, hlist, hrun⟩ := Option.bind_eq_some_iff.mp hσ'
  refine ⟨σ, σ', hlist, hrun, ?_⟩
  have hview := list_view_coherent (.start rfl) rfl (by decide)
    (fun _ _ _ h => (by cases h)) hlist hrun
  refine hview.mpr ⟨?_, fun _ _ => ⟨fun _ _ => (by trivial), fun _ _ => ⟨?_, fun _ _ => (by trivial)⟩⟩⟩ _ σ'
    List.prefix_rfl hrun
  · intro node hn
    rw [(responseList_spec hlist).1] at hn
    cases hn
    exact ⟨fun _ => (by decide), fun c hc => (by cases hc)⟩
  · intro _ _ hkey
    exact absurd hkey (by decide)

/-- A key that starts with `$$$` is sent when it is set, and not when the node is listed. -/
theorem list_view_hidden : ∃ σ σ', init.responseList (some (.integer 1)) init.superRoot = some σ ∧
    runFrom (edit []) σ [.setMeta [] true (cstr "$$$x") (some (.bool true))] = some σ' ∧ ¬ Coherent [] 1 0 σ' := by
  refine ⟨_, _, rfl, rfl, fun h => ?_⟩
  have hshown := congrArg Option.isSome (congrFun (h _ rfl) (cstr "$$$x"))
  revert hshown
  decide

end DSLink.Responder
