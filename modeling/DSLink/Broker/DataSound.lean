import DSLink.Broker.DataTree

/-!
# `Broker.DataSound` — what holds of the tree below `/data` in every run

Every change of the tree, and every `data.json` that is loaded, keeps `Sound` and leaves the actions where they are.

## Contents
- `SameActions`: what a change at a node leaves to its parent.
- One lemma for each function that changes the tree; `load_sound` for the reader, on any file.
- `Whole`, `State.Reached.whole`.
-/

namespace DSLink.DataTree

variable {top : Bool} {node node' child t : BrokerNode} {name key : CString} {names : List CString}

/-! ## What holds of the tree in every run -/

/-- The names of the actions of `/data`. -/
def topNames : List CString := [cstr "addNode", cstr "addValue", cstr "publish"]

/-- There are actions under the names. -/
def HasActions (names : List CString) (node : BrokerNode) : Prop :=
  ∀ name ∈ names, ∃ action, node.child name = some action ∧ action.label.onInvoke.isSome

/-- `/data` with all that is below it. -/
structure Whole (node : BrokerNode) : Prop where
  sound : Sound true node
  actions : HasActions topNames node

/-- What a change at a node leaves to its parent. -/
def SameActions (node node' : BrokerNode) : Prop :=
  SameInvoke node node' ∧ ∀ name c, node.child name = some c → c.label.onInvoke.isSome →
    ∃ c', node'.child name = some c' ∧ c'.label.onInvoke.isSome

theorem SameActions.refl (node : BrokerNode) : SameActions node node := ⟨rfl, fun _ c hc hon => ⟨c, hc, hon⟩⟩

theorem SameActions.hasActions (h : SameActions node node') (ha : HasActions names node) : HasActions names node' := by
  intro name hname
  obtain ⟨action, hchild, hon⟩ := ha name hname
  exact h.2 name action hchild hon

theorem SameActions.trans {node'' : BrokerNode} (h : SameActions node node') (h' : SameActions node' node'') :
    SameActions node node'' := by
  refine ⟨h'.1.trans h.1, fun name c hc hon => ?_⟩
  obtain ⟨c', hc', hon'⟩ := h.2 name c hc hon
  exact h'.2 name c' hc' hon'

theorem sameActions_setLabel {fields : Fields} (h : fields.onInvoke = node.label.onInvoke) :
    SameActions node (node.setLabel fields) := ⟨h, fun _ c hc hon => ⟨c, hc, hon⟩⟩

/-- A child is put where there was none, or one with the same `on_invoke`. -/
theorem sameActions_setChild (hold : ∀ c, node.child name = some c → SameInvoke c child) :
    SameActions node (node.setChild name child) := by
  refine ⟨rfl, fun other c hc hon => ?_⟩
  by_cases hother : other = name
  · subst hother
    refine ⟨child, KeyTree.child_setChild_self, ?_⟩
    rw [show child.label.onInvoke = c.label.onInvoke from hold c hc]
    exact hon
  · exact ⟨c, (KeyTree.child_setChild_ne hother).trans hc, hon⟩

theorem sameActions_eraseChild (hd : node.Distinct) (hc : node.child name = some child)
    (hon : child.label.onInvoke = none) : SameActions node (node.eraseChild name) := by
  refine ⟨rfl, fun other c hother hsome => ⟨c, ?_, hsome⟩⟩
  have hne : other ≠ name := by
    rintro rfl
    rw [← Option.some.inj (hc.symm.trans hother), hon] at hsome
    cases hsome
  rw [hd.child_eraseChild, if_neg hne]
  exact hother

/-! ### New nodes -/

theorem keys_meta {m : Metadata} (h : ∀ e ∈ m.entries, isMetaKey e.1 = true) (key : CString)
    (hkey : (m.get key).isSome) : isMetaKey key = true := by
  obtain ⟨value, hvalue⟩ := Option.isSome_iff_exists.mp hkey
  exact h _ (AssocMap.mem_entries.mpr hvalue)

/-- What is needed of an action that is made. -/
theorem freshAction {node : BrokerNode} (hchildren : node.children = []) (hinvoke : node.label.onInvoke.isSome)
    (haction : isAction node = true) (hkeys : ∀ e ∈ node.label.metadata.entries, isMetaKey e.1 = true)
    (hprofile : (node.label.metadata.get (cstr "$is")).isSome) : FreshAction node := by
  have hfit : Fit false node := by
    refine ⟨⟨?_, keys_meta hkeys, hprofile, fun _ => ⟨haction, ?_⟩⟩, fun _ hon => ?_⟩
    · unfold KeyTree.Distinct
      rw [hchildren]
      exact List.nodup_nil
    · rw [hchildren]
      exact nofun
    · rw [hon] at hinvoke
      cases hinvoke
  refine ⟨hchildren, hinvoke, .intro hfit ?_⟩
  rw [hchildren]
  exact nofun

/-- The children of a new data node are its three actions. -/
theorem newDataNode_children : newDataNode.children.map Prod.fst = actionNames ∧
    ∀ e ∈ newDataNode.children, FreshAction e.2 := by
  refine ⟨by decide, ?_⟩
  intro e he
  have hall : ∀ e ∈ newDataNode.children, e.2.children.isEmpty ∧ e.2.label.onInvoke.isSome ∧ isAction e.2 = true ∧
      (∀ x ∈ e.2.label.metadata.entries.map Prod.fst, isMetaKey x = true) ∧
      (e.2.label.metadata.get (cstr "$is")).isSome := by decide
  obtain ⟨hchildren, hinvoke, haction, hkeys, hprofile⟩ := hall e he
  exact freshAction (List.isEmpty_iff.mp hchildren) hinvoke haction
    (fun x hx => hkeys _ (List.mem_map_of_mem hx)) hprofile

theorem newDataNode_created : Created newDataNode := by
  refine ⟨by decide, by decide, ?_⟩
  have hall : ∀ name ∈ actionNames, (newDataNode.child name).any (fun a => a.label.onInvoke.isSome) := by decide
  intro name hname
  exact (Option.any_eq_true _ _).mp (hall name hname)

theorem newDataNode_sound : Sound false newDataNode := by
  have hkeys : ∀ x ∈ newDataNode.label.metadata.entries.map Prod.fst, isMetaKey x = true := by decide
  refine .intro ⟨⟨?_, keys_meta fun e he => hkeys _ (List.mem_map_of_mem he), by decide, ?_⟩,
    fun _ _ => newDataNode_created⟩ fun e he => (newDataNode_children.2 e he).sound
  · unfold KeyTree.Distinct
    rw [newDataNode_children.1]
    decide
  · exact fun h => absurd h (by decide)

theorem newDataNode_invoke : newDataNode.label.onInvoke = none := by decide

/-! ### Changes -/

theorem Sound.setLabel (h : Sound top node) {fields : Fields} (hfit : Fit top (node.setLabel fields)) :
    Sound top (node.setLabel fields) := KeyTree.Holds.setLabel h hfit

theorem Sound.setMeta (h : Sound top node) (hkey : isMetaKey key = true) (value : Json) :
    Sound top (setMeta node key value) := h.setLabel (h.here.setMeta hkey value)

/-- The metadata and `on_invoke` stay. -/
theorem Sound.setFields (h : Sound top node) {fields : Fields} (hmeta : fields.metadata = node.label.metadata)
    (hinvoke : fields.onInvoke = node.label.onInvoke) : Sound top (node.setLabel fields) := by
  refine h.setLabel (h.here.setLabel hinvoke ?_ ?_)
  · rw [hmeta]
    exact h.here.1.keys
  · rw [hmeta]
    exact fun _ _ hkey => hkey

theorem Sound.below (h : Sound top node) (hc : node.child name = some child) : Sound false child :=
  KeyTree.Holds.child h h.distinct hc

/-- `broker_node_add` of a data node. -/
theorem Sound.nodeAdd (h : Sound top node) (hc : Sound false child) (hon : child.label.onInvoke = none)
    (ha : brokerNodeAdd node name child = some node') : Sound top node' ∧ SameActions node node' := by
  unfold brokerNodeAdd at ha
  split at ha
  · cases ha
  · rename_i hnone
    obtain rfl := Option.some.inj ha
    have hnew : node.child name = none := by simpa using hnone
    have hold : ∀ c, node.child name = some c → SameInvoke c child := fun c hc => by rw [hnew] at hc; cases hc
    exact ⟨KeyTree.Holds.setChild h h.distinct hc (h.here.setChild hold fun _ => hon), sameActions_setChild hold⟩

/-- `broker_node_add` of an action to a node that is none itself. -/
theorem Sound.addAction (h : Sound top node) (hon : node.label.onInvoke = none) (hc : FreshAction child)
    (ha : brokerNodeAdd node name child = some node') :
    Sound top node' ∧ SameActions node node' ∧ node'.child name = some child := by
  unfold brokerNodeAdd at ha
  split at ha
  · cases ha
  · rename_i hnone
    obtain rfl := Option.some.inj ha
    have hnew : node.child name = none := by simpa using hnone
    have hsame : SameActions node (node.setChild name child) :=
      sameActions_setChild (fun c hc => by rw [hnew] at hc; cases hc)
    refine ⟨KeyTree.Holds.setChild h h.distinct hc.sound ?_, hsame, KeyTree.child_setChild_self⟩
    obtain ⟨hshaped, hcreated⟩ := h.here
    refine ⟨⟨hshaped.distinct.setChild, hshaped.keys, hshaped.profile, fun hsome => ?_⟩, fun ht hon' => ?_⟩
    · rw [show (node.setChild name child).label.onInvoke = none from hon] at hsome
      cases hsome
    · have hcr : Created node := hcreated ht hon'
      exact ⟨hcr.type, hcr.writable, hsame.hasActions hcr.actions⟩

/-- A child with an action below it is none itself. -/
theorem Sound.invoke_none (h : Sound top node) {action : BrokerNode} (hc : node.child name = some action)
    (hon : action.label.onInvoke.isSome) : node.label.onInvoke = none := by
  by_contra hsome
  have hnone := (h.here.1.action (Option.ne_none_iff_isSome.mp hsome)).2 _ (h.distinct.mem_of_child hc)
  rw [hnone] at hon
  cases hon

theorem Sound.delete (h : Sound top node) (hs : onDeleteNodeInvoked name node = some node') :
    Sound top node' ∧ SameActions node node' := by
  unfold onDeleteNodeInvoked at hs
  split at hs
  · rename_i hany
    obtain rfl := Option.some.inj hs
    obtain ⟨c, hc, haction⟩ := (Option.any_eq_true _ _).mp hany
    obtain ⟨action, hchild, hinvoke⟩ := (Option.any_eq_true _ _).mp haction
    have hon : c.label.onInvoke = none := by
      refine (h.below hc).invoke_none hchild ?_
      rw [of_decide_eq_true hinvoke]
      rfl
    exact ⟨KeyTree.Holds.eraseChild h (h.here.eraseChild hc hon), sameActions_eraseChild h.distinct hc hon⟩
  · cases hs

theorem Sound.createDynamic (h : Sound top node) (value : Option Json) (names : List CString) :
    Sound top (brokerCreateDynamicDataNode value names node) ∧
      SameActions node (brokerCreateDynamicDataNode value names node) := by
  induction names generalizing top node with
  | nil => exact ⟨h.setFields rfl rfl, sameActions_setLabel rfl⟩
  | cons name names ih =>
    rw [brokerCreateDynamicDataNode]
    have hchild : Sound false ((node.child name).getD newDataNode) := by
      cases hc : node.child name with
      | none => exact newDataNode_sound
      | some c => exact h.below hc
    obtain ⟨hsound, hsame⟩ := ih hchild
    have hold : ∀ c, node.child name = some c →
        SameInvoke c (brokerCreateDynamicDataNode value names ((node.child name).getD newDataNode)) := by
      intro c hc
      rw [hc] at hsame ⊢
      exact hsame.1
    refine ⟨KeyTree.Holds.setChild h h.distinct hsound (h.here.setChild hold fun hnone => ?_), sameActions_setChild hold⟩
    rw [hnone] at hsame ⊢
    exact hsame.1.trans newDataNode_invoke

/-- A change at one node. -/
theorem Sound.update {f : BrokerNode → Option BrokerNode}
    (hf : ∀ {top node node'}, Sound top node → f node = some node' → Sound top node' ∧ SameActions node node')
    (h : Sound top node) (hu : KeyTree.update f names node = some node') :
    Sound top node' ∧ SameActions node node' := by
  refine KeyTree.Holds.update Fit.distinct hf ?_ h hu
  intro top t k c c' hfit hc hsame
  have hold : ∀ c0, t.child k = some c0 → SameInvoke c0 c' := fun c0 hc0 =>
    Option.some.inj (hc.symm.trans hc0) ▸ hsame.1
  refine ⟨hfit.setChild hold (fun hnone => ?_), sameActions_setChild hold⟩
  rw [hc] at hnone
  cases hnone

mutual

/-- Whatever is loaded, the tree stays sound. -/
theorem load_sound : ∀ (data : Json) {top : Bool} {node node' : BrokerNode}, Sound top node →
    brokerLoadDataNode node data = some node' → Sound top node' ∧ SameActions node node'
  | .object members, top, node, node', h, hs => by
    rw [brokerLoadDataNode] at hs
    exact loadMembers_sound members h hs
  | .null, _, _, _, h, hs | .bool _, _, _, _, h, hs | .integer _, _, _, _, h, hs | .real _, _, _, _, h, hs
  | .string _, _, _, _, h, hs | .array _, _, _, _, h, hs => by
    simp only [brokerLoadDataNode, Option.some.injEq] at hs
    exact hs ▸ ⟨h, .refl _⟩

theorem loadMembers_sound : ∀ (members : Object) {top : Bool} {node node' : BrokerNode}, Sound top node →
    loadMembers node members = some node' → Sound top node' ∧ SameActions node node'
  | [], _, _, _, h, hs => by
    simp only [loadMembers, Option.some.injEq] at hs
    exact hs ▸ ⟨h, .refl _⟩
  | (key, value) :: rest, top, node, node', h, hs => by
    have hlist : Sound top (loadPermissions node key value) ∧ SameActions node (loadPermissions node key value) := by
      unfold loadPermissions
      split
      · exact ⟨h.setFields rfl rfl, sameActions_setLabel rfl⟩
      · exact ⟨h, .refl _⟩
    rw [loadMembers] at hs
    split at hs
    · rename_i hkey
      obtain ⟨hsound, hsame⟩ := loadMembers_sound rest (hlist.1.setMeta hkey value) hs
      exact ⟨hsound, hlist.2.trans ((sameActions_setLabel rfl).trans hsame)⟩
    · obtain ⟨child, hchild, hs⟩ := Option.bind_eq_some_iff.mp hs
      obtain ⟨mid, hadd, hs⟩ := Option.bind_eq_some_iff.mp hs
      obtain ⟨hcsound, hcsame⟩ := load_sound value newDataNode_sound hchild
      obtain ⟨hmid, hmsame⟩ := hlist.1.nodeAdd hcsound (hcsame.1.trans newDataNode_invoke) hadd
      obtain ⟨hsound, hsame⟩ := loadMembers_sound rest hmid hs
      exact ⟨hsound, hlist.2.trans (hmsame.trans hsame)⟩

end

/-! ### Runs -/

theorem dataNode_sound : Sound true dataNode := by
  have hkeys : ∀ x ∈ dataNode.label.metadata.entries.map Prod.fst, isMetaKey x = true := by decide
  refine .intro ⟨⟨List.nodup_nil, keys_meta fun e he => hkeys _ (List.mem_map_of_mem he), by decide, ?_⟩, nofun⟩ nofun
  exact fun h => absurd h (by decide)

/-- `broker_data_node_populate` adds three actions. -/
theorem populate_sound (h : Sound true node) (hon : node.label.onInvoke = none)
    (hs : brokerDataNodePopulate node = some node') :
    Whole node' ∧ SameActions node node' ∧
      ∀ other, other ∉ topNames → node'.child other = node.child other := by
  simp only [brokerDataNodePopulate, Option.bind_eq_bind, Option.bind_eq_some_iff] at hs
  obtain ⟨n1, h1, n2, h2, h3⟩ := hs
  have hfresh : ∀ onInvoke params, FreshAction (setMeta (actionNode onInvoke) (cstr "$params") params) := by
    intro onInvoke params
    have hkeys : ∀ x ∈ (setMeta (actionNode onInvoke) (cstr "$params") params).label.metadata.entries.map Prod.fst,
        isMetaKey x = true := by
      have hnames : (setMeta (actionNode onInvoke) (cstr "$params") params).label.metadata.entries.map Prod.fst =
          [cstr "$is", cstr "$invokable", cstr "$params"] := rfl
      rw [hnames]
      decide
    exact freshAction rfl rfl rfl (fun e he => hkeys _ (List.mem_map_of_mem he)) rfl
  obtain ⟨s1, m1, c1⟩ := h.addAction hon (hfresh _ _) h1
  obtain ⟨s2, m2, c2⟩ := s1.addAction (m1.1.trans hon) (hfresh _ _) h2
  obtain ⟨s3, m3, c3⟩ := s2.addAction ((m1.trans m2).1.trans hon) (hfresh _ _) h3
  refine ⟨⟨s3, ?_⟩, m1.trans (m2.trans m3), ?_⟩
  · intro name hname
    simp only [topNames, List.mem_cons, List.not_mem_nil, or_false] at hname
    rcases hname with rfl | rfl | rfl
    · exact (m2.trans m3).2 _ _ c1 rfl
    · exact m3.2 _ _ c2 rfl
    · exact ⟨_, c3, rfl⟩
  · intro other hother
    have hadd : ∀ {n n' c : BrokerNode} {name : CString}, name ∈ topNames → brokerNodeAdd n name c = some n' →
        n'.child other = n.child other := by
      intro n n' c name hname ha
      unfold brokerNodeAdd at ha
      split at ha
      · cases ha
      · obtain rfl := Option.some.inj ha
        exact KeyTree.child_setChild_ne (fun he => hother (he ▸ hname))
    rw [hadd (by decide) h3, hadd (by decide) h2, hadd (by decide) h1]

/-- `/data` with what is in the file. -/
def loadFile (dataJson : Option Json) : Option BrokerNode :=
  match dataJson with
  | some top => brokerLoadDataNode dataNode top
  | none => some dataNode

theorem brokerInit_eq (dataJson : Option Json) : State.brokerInit dataJson = (loadFile dataJson).bind fun loaded =>
    (brokerDataNodePopulate loaded).bind fun data => some ⟨data, dataJson⟩ := by
  cases dataJson <;> rfl

theorem brokerInit_eq_some {σ : State} {dataJson : Option Json} (h : State.brokerInit dataJson = some σ) :
    ∃ loaded, loadFile dataJson = some loaded ∧ ∃ data, brokerDataNodePopulate loaded = some data ∧
      σ = ⟨data, dataJson⟩ := by
  rw [brokerInit_eq] at h
  obtain ⟨loaded, hloaded, h⟩ := Option.bind_eq_some_iff.mp h
  obtain ⟨data, hdata, h⟩ := Option.bind_eq_some_iff.mp h
  exact ⟨loaded, hloaded, data, hdata, (Option.some.inj h).symm⟩

theorem brokerInit_whole {σ : State} {dataJson : Option Json} (h : State.brokerInit dataJson = some σ) :
    Whole σ.data := by
  obtain ⟨loaded, hloaded, populated, hpopulated, rfl⟩ := brokerInit_eq_some h
  have hload : Sound true loaded ∧ SameActions dataNode loaded := by
    cases dataJson with
    | none => exact Option.some.inj hloaded ▸ ⟨dataNode_sound, .refl _⟩
    | some top => exact load_sound top dataNode_sound hloaded
  exact (populate_sound hload.1 (hload.2.1.trans (by decide)) hpopulated).1

theorem Whole.change {σ σ' : State} (h : Whole σ.data) {names : List CString} {f : BrokerNode → Option BrokerNode}
    (hf : ∀ {top node node'}, Sound top node → f node = some node' → Sound top node' ∧ SameActions node node')
    (hs : σ.change names f = some σ') : Whole σ'.data := by
  obtain ⟨data, hdata, rfl⟩ := Option.map_eq_some_iff.mp hs
  obtain ⟨hsound, hsame⟩ := h.sound.update hf hdata
  exact ⟨hsound, hsame.hasActions h.actions⟩

/-- The two actions that add a node. -/
theorem Sound.getD_nodeAdd (h : Sound top node) (name : CString) :
    Sound top ((brokerNodeAdd node name newDataNode).getD node) ∧
      SameActions node ((brokerNodeAdd node name newDataNode).getD node) := by
  cases ha : brokerNodeAdd node name newDataNode with
  | none => exact ⟨h, .refl _⟩
  | some node' => exact h.nodeAdd newDataNode_sound newDataNode_invoke ha

theorem Whole.step {σ σ' : State} (h : Whole σ.data) {e : Event} (hs : σ.step e = some σ') : Whole σ'.data := by
  cases e with
  | addNode parent name =>
    refine h.change (fun hn hf => ?_) hs
    split at hf
    · exact Option.some.inj hf ▸ hn.getD_nodeAdd name
    · cases hf
  | addValue parent name =>
    refine h.change (fun hn hf => ?_) hs
    split at hf
    · exact Option.some.inj hf ▸ hn.getD_nodeAdd name
    · cases hf
  | deleteNode parent name => exact h.change (fun hn hf => hn.delete hf) hs
  | createDynamic names value =>
    obtain rfl := Option.some.inj hs
    obtain ⟨hsound, hsame⟩ := h.sound.createDynamic value names
    exact ⟨hsound, hsame.hasActions h.actions⟩
  | updateValue names value =>
    refine h.change (fun hn hf => ?_) hs
    exact Option.some.inj hf ▸ ⟨hn.setFields rfl rfl, sameActions_setLabel rfl⟩
  | setAttribute names name value =>
    refine h.change (fun hn hf => ?_) hs
    split at hf
    · rename_i hname
      refine Option.some.inj hf ▸ ⟨hn.setMeta ?_ value, sameActions_setLabel rfl⟩
      simp [isMetaKey, hname]
    · cases hf
  | removeAttribute names name =>
    refine h.change (fun hn hf => ?_) hs
    split at hf
    · rename_i hname
      exact Option.some.inj hf ▸ ⟨hn.setLabel (hn.here.delMeta hname), sameActions_setLabel rfl⟩
    · cases hf
  | setPermissionList names permissions =>
    refine h.change (fun hn hf => ?_) hs
    exact Option.some.inj hf ▸ ⟨hn.setFields rfl rfl, sameActions_setLabel rfl⟩
  | save => exact Option.some.inj hs ▸ h
  | restart => exact brokerInit_whole hs

theorem State.Reached.whole {σ : State} (h : State.Reached σ) : Whole σ.data :=
  Reach.invariant (fun σ => Whole σ.data) (fun _ h => brokerInit_whole h) (fun _ _ _ h _ hs => h.step hs) h

end DSLink.DataTree
