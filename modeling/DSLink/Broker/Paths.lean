import DSLink.Broker.Json
import DSLink.Broker.Tree

/-!
# `Broker.Paths` — paths as the names of nodes

A path is put together from names when a node is added and is taken apart at its slashes when a node is looked
up. `PathsIdentify` says that the two fit: every node of the tree is what its path gives, and no other node has
that path. It holds exactly in the states in which every name is `Plain`, and a broker whose names are plain when
it is started and in every request stays in these states.

## Contents
- `brokerLoadDataNode`, `brokerBoot`: the start of the broker with the stored data nodes.
- `InTree`, `PathsIdentify`, `NamesPlain`.
- `ChildrenAbove`: a child is younger than its parent.
- `PathsIdentify` from `NamesPlain`, and back.
- The run theorem.
-/

namespace DSLink

variable {J : Type} {cfg : Config} {σ σ' : Broker J}

namespace Broker

/-! ## The stored nodes -/

mutual

/-- `broker_load_data_node`. What is no object has no members. -/
def brokerLoadDataNode (data : Json) (σ : Broker J) (n : NodeId) : Option (Broker J) :=
  match data with
  | .object members => brokerLoadMembers members σ n
  | _ => some σ

/-- The members of a stored node. Only what starts with '$' or '@' is no child, `?permissions` is one too. The
    actions of a child whose name is taken are added to a node without a path. -/
def brokerLoadMembers (members : List (CString × Json)) (σ : Broker J) (n : NodeId) : Option (Broker J) :=
  match members with
  | [] => some σ
  | (key, value) :: rest =>
    if key.head? = some 36 ∨ key.head? = some 64 then brokerLoadMembers rest σ n
    else do
      let (σ, child) ← σ.brokerNodeAdd n key
      let c ← child
      let (σ, _) ← σ.brokerCreateDataActions c
      let σ ← brokerLoadDataNode value σ c
      brokerLoadMembers rest σ n

end

/-- `deserialize_data_node_values` on the unescaped names of the value files. -/
def deserializeDataNodeValues (cfg : Config) (σ : Broker J) (files : List (CString × J)) (now : J) :
    Option (Broker J) :=
  files.foldlM (fun σ file => σ.brokerCreateDynamicDataNode cfg file.2 now (file.1.length + 1) σ.root file.1) σ

/-- `broker_data_node_populate`. -/
def brokerDataNodePopulate (cfg : Config) (σ : Broker J) (n : NodeId) (files : List (CString × J)) (now : J) :
    Option (Broker J) := do
  let (σ, addNode) ← σ.addAction n (cstr "addNode") .addNode
  let (σ, addValue) ← σ.addAction n (cstr "addValue") .addValue
  let (σ, publish) ← σ.addAction n (cstr "publish") .publish
  -- a name that is taken ends the start of the broker
  if addNode.isSome ∧ addValue.isSome ∧ publish.isSome then σ.deserializeDataNodeValues cfg files now else none

/-- A node that `broker_init` cannot do without. -/
def bootNode (σ : Broker J) (name : CString) : Option (Broker J × NodeId) := do
  let (σ, child) ← σ.brokerNodeAdd σ.root name
  let c ← child
  some (σ, c)

/-- The broker before `broker_init` adds nodes. -/
def rootOnly : Broker J :=
  { sub := .empty, stream := .empty, node := Heap.empty.alloc ⟨[slash], [], none, .empty, none, none, none⟩,
    dnode := .empty, root := 0, upstream := 0, downstream := 0, data := 0, localPendingSub := .empty,
    remotePendingSub := .empty, storage := .empty, published := [] }

/-- `broker_init` with the stored data nodes and their values. -/
def brokerBoot (cfg : Config) (data : Json) (files : List (CString × J)) (now : J) : Option (Broker J) := do
  let (σ, _) ← bootNode rootOnly (cstr "sys")
  let (σ, upstream) ← σ.bootNode (cstr "upstream")
  let (σ, dataNode) ← σ.bootNode (cstr "data")
  let σ ← brokerLoadDataNode data σ dataNode
  let σ ← σ.brokerDataNodePopulate cfg dataNode files now
  let (σ, downstream) ← σ.bootNode (cstr "downstream")
  let (σ, _) ← σ.bootNode (cstr "defs")
  some { σ with upstream := upstream, data := dataNode, downstream := downstream }

/-! ## The tree and its names -/

/-- The nodes of the tree: the root, and the children of its local nodes. -/
inductive InTree (σ : Broker J) : NodeRef → Prop
  | root : InTree σ (.regular σ.root)
  | child {p : NodeId} {node : BrokerNode J} {k : CString} {r : NodeRef} (hp : InTree σ (.regular p))
      (hnode : σ.node.get p = some node) (hk : node.children.get k = some r) : InTree σ r

/-- `path` of a node. -/
def pathOf (σ : Broker J) : NodeRef → Option CString
  | .regular n => (σ.node.get n).map (fun node => node.path)
  | .downstream d => (σ.dnode.get d).map (fun node => node.path)

/-- `name` of a node. -/
def nameOf (σ : Broker J) : NodeRef → Option CString
  | .regular n => (σ.node.get n).map (fun node => node.name)
  | .downstream d => (σ.dnode.get d).map (fun node => node.name)

/-- Every node of the tree is found under its path and has it for itself. -/
def PathsIdentify (σ : Broker J) : Prop :=
  ∀ r path, σ.InTree r → σ.pathOf r = some path →
    (∃ out, σ.brokerNodeGet path = some (some (r, out))) ∧ ∀ r', σ.InTree r' → σ.pathOf r' = some path → r' = r

/-- A name that is one segment of a path. -/
def Plain (name : CString) : Prop := name ≠ [] ∧ slash ∉ name

instance : DecidablePred Plain := fun _ => inferInstanceAs (Decidable (_ ∧ _))

/-- The names below the root are plain. -/
def NamesPlain (σ : Broker J) : Prop :=
  ∀ r name, σ.InTree r → r ≠ .regular σ.root → σ.nameOf r = some name → Plain name

/-! ## What holds of every entry -/

/-- Every entry in the children of a local node is in `E`. -/
def Entries (E : NodeId → CString → NodeRef → Prop) (σ : Broker J) : Prop :=
  ∀ p node k r, σ.node.get p = some node → node.children.get k = some r → E p k r

variable {E : NodeId → CString → NodeRef → Prop}

theorem Entries.shrinks (h : σ.Entries E) (hs : Shrinks σ σ') : σ'.Entries E := by
  intro p node' k r hp hk
  obtain ⟨node, hnode, -, -, hchildren⟩ := hs.node _ _ hp
  exact h p node k r hnode (hchildren k r hk)

theorem Entries.adds {p : NodeId} {k : CString} {r : NodeRef} (h : σ.Entries E) (hs : Adds σ σ' p k r)
    (hE : E p k r) : σ'.Entries E := by
  intro q node' k' r' hq hk'
  rcases hs.node _ _ hq with ⟨node, hnode, -, -, hchildren⟩ | ⟨-, hnone, -⟩
  · rcases hchildren k' r' hk' with hold | ⟨rfl, rfl, rfl⟩
    · exact h q node k' r' hnode hold
    · exact hE
  · rw [hnone] at hk'
    cases hk'

theorem brokerNodeAdd_eq {p : NodeId} {k : CString} {r : Option NodeId} (h : σ.brokerNodeAdd p k = some (σ', r)) :
    (r = none ∧ σ' = σ) ∨ ∃ c node, r = some c ∧ σ.node.get p = some node ∧ c = σ.node.next := by
  simp only [brokerNodeAdd, Option.bind_eq_bind, Option.bind_eq_some_iff] at h
  obtain ⟨node, hp, h⟩ := h
  split at h <;> cases h
  · exact .inl ⟨rfl, rfl⟩
  · exact .inr ⟨_, node, rfl, hp, rfl⟩

/-- A call keeps what holds of the entries, when it holds of the one the call adds. -/
theorem Entries.call {c : Call J} (h : σ.Entries E)
    (hnode : ∀ p k n, c = .newNode p k → p < n → E p k (.regular n))
    (hdnode : ∀ p k d, c = .newDnode p k → E p k (.downstream d)) (hs : c.run cfg σ = some σ') : σ'.Entries E := by
  cases c with
  | newNode parent name =>
    obtain ⟨⟨τ, r⟩, hadd, rfl⟩ := Option.map_eq_some_iff.mp hs
    rcases brokerNodeAdd_eq hadd with ⟨-, rfl⟩ | ⟨c, node, rfl, hp, rfl⟩
    · exact h
    · exact h.adds (brokerNodeAdd_adds hadd) (hnode _ _ _ rfl (Heap.lt_next_of_get hp))
  | newDnode parent name =>
    obtain ⟨⟨τ, d⟩, hadd, rfl⟩ := Option.map_eq_some_iff.mp hs
    exact h.adds (brokerInitDownstreamNode_adds hadd) (hdnode _ _ _ rfl)
  | setAction n action =>
    obtain rfl := Option.some.inj hs
    exact h.shrinks (.modNode (fun node => ⟨rfl, rfl, fun _ _ hk => hk⟩))
  | orphan ref =>
    obtain rfl := Option.some.inj hs
    exact h.shrinks (.orphan σ ref)
  | dropNode n parent name => exact h.shrinks (.dropNode hs)
  | dropDnode d => exact h.shrinks (.freeDownstreamNode hs)
  | _ => exact h.shrinks (.of_frame (Call.frame hs) (by simp [Call.parts]) (by simp [Call.parts])
      (by simp [Call.parts]))

/-- No call moves the root or the nodes that links are put under. -/
theorem roots_call {c : Call J} (hs : c.run cfg σ = some σ') :
    σ'.root = σ.root ∧ σ'.upstream = σ.upstream ∧ σ'.downstream = σ.downstream := by
  have hroots : Part.roots ∉ c.parts := by cases c <;> simp [Call.parts]
  obtain ⟨hroot, hup, hdown, -⟩ : Same .roots σ σ' := (Call.frame hs) .roots hroots
  exact ⟨hroot, hup, hdown⟩

/-- A new downstream node is put under one of the two nodes for links. -/
def Seated (σ : Broker J) (c : Call J) : Prop :=
  ∀ p k, c = .newDnode p k → p = σ.downstream ∨ p = σ.upstream

theorem initNode_eq {parent : NodeId} {name : CString} (h : σ.initNode parent name = some σ') :
    σ' = σ ∨ (Call.newDnode parent name).run cfg σ = some σ' := by
  simp only [initNode, Option.bind_eq_bind, Option.bind_eq_some_iff] at h
  obtain ⟨node, -, h⟩ := h
  split at h
  · cases h
    exact .inl rfl
  · simp only [Option.bind_eq_some_iff] at h
    obtain ⟨⟨τ, id⟩, hτ, h⟩ := h
    cases h
    exact .inr (by simp [Call.run, hτ])

theorem step_calls_seated {e : Event J} (hs : step cfg σ e = some σ') : Calls cfg σ.Seated σ σ' := by
  have hother : (∀ c, e.calls c → ∀ p k, c ≠ .newDnode p k) → Calls cfg σ.Seated σ σ' :=
    fun h => (step_calls hs).mono (fun c hc p k hcall => absurd hcall (h c hc p k))
  cases e with
  | initDownstream name =>
    rcases (initNode_eq hs : _ ∨ Call.run cfg _ _ = _) with rfl | hrun
    · exact .refl _
    · refine .one _ ?_ hrun
      rintro p k ⟨⟩
      exact .inl rfl
  | initUpstream name =>
    rcases (initNode_eq hs : _ ∨ Call.run cfg _ _ = _) with rfl | hrun
    · exact .refl _
    · refine .one _ ?_ hrun
      rintro p k ⟨⟩
      exact .inr rfl
  | _ =>
    apply hother
    rintro c hc p k rfl
    simp [Event.calls, Call.connects, Call.subscribes, Call.updates, Call.removes, Call.builds] at hc

/-! ## Where nodes stand -/

/-- The root is the oldest node, links stand below another node, and a child is younger than its parent. -/
structure ChildrenAbove (σ : Broker J) : Prop where
  root : σ.root = 0
  seats : σ.downstream ≠ 0 ∧ σ.upstream ≠ 0
  regular : σ.Entries (fun p _ r => ∀ n, r = .regular n → p < n)
  downstream : σ.Entries (fun p _ r => ∀ d, r = .downstream d → p ≠ 0)

theorem ChildrenAbove.call {c : Call J} (h : σ.ChildrenAbove) (hseat : ∀ p k, c = .newDnode p k → p ≠ 0)
    (hs : c.run cfg σ = some σ') : σ'.ChildrenAbove := by
  obtain ⟨hroot, hup, hdown⟩ := roots_call hs
  refine ⟨hroot.trans h.root, hup ▸ hdown ▸ h.seats, h.regular.call ?_ ?_ hs, h.downstream.call ?_ ?_ hs⟩
  · rintro p k n - hlt m ⟨⟩
    exact hlt
  · rintro p k d - n ⟨⟩
  · rintro p k n - - d ⟨⟩
  · rintro p k d hc e -
    exact hseat p k hc

theorem ChildrenAbove.step {e : Event J} (h : σ.ChildrenAbove) (hs : Broker.step cfg σ e = some σ') :
    σ'.ChildrenAbove := by
  refine (Calls.invariant (fun τ => τ.ChildrenAbove ∧ τ.downstream = σ.downstream ∧ τ.upstream = σ.upstream)
    (step_calls_seated hs) ?_ ⟨h, rfl, rfl⟩).1
  rintro τ c τ' ⟨hτ, hdown, hup⟩ hseat hrun
  obtain ⟨-, hup', hdown'⟩ := roots_call hrun
  refine ⟨hτ.call (fun p k hc => ?_) hrun, hdown'.trans hdown, hup'.trans hup⟩
  rcases hseat p k hc with rfl | rfl
  · exact h.seats.1
  · exact h.seats.2

/-! ## The start -/

mutual

/-- The keys that `broker_load_data_node` makes names of are all in `N`. -/
def KeysIn (N : CString → Prop) : Json → Prop
  | .object members => MembersIn N members
  | _ => True

/-- `KeysIn` for the members of an object. -/
def MembersIn (N : CString → Prop) : List (CString × Json) → Prop
  | [] => True
  | (key, value) :: rest =>
    (key.head? = some 36 ∨ key.head? = some 64 ∨ (N key ∧ KeysIn N value)) ∧ MembersIn N rest

end

mutual

theorem KeysIn.true : ∀ data : Json, KeysIn (fun _ => True) data
  | .object members => by
    rw [KeysIn]
    exact MembersIn.true members
  | .null | .bool _ | .integer _ | .real _ | .string _ | .array _ => by simp [KeysIn]

theorem MembersIn.true : ∀ members : List (CString × Json), MembersIn (fun _ => True) members
  | [] => by simp [MembersIn]
  | (key, value) :: rest => by
    rw [MembersIn]
    exact ⟨.inr (.inr ⟨trivial, KeysIn.true value⟩), MembersIn.true rest⟩

end

section

variable {N : CString → Prop}

mutual

theorem brokerLoadDataNode_calls (hN : ∀ name ∈ dataActionNames, N name) : ∀ (data : Json) {σ σ' : Broker J}
    {n : NodeId}, KeysIn N data → brokerLoadDataNode data σ n = some σ' → Calls cfg (Call.buildsNamed N) σ σ'
  | .object members, σ, σ', n, hkeys, h => by
    rw [KeysIn] at hkeys
    rw [brokerLoadDataNode] at h
    exact brokerLoadMembers_calls hN members hkeys h
  | .null, _, _, _, _, h | .bool _, _, _, _, _, h | .integer _, _, _, _, _, h | .real _, _, _, _, _, h
  | .string _, _, _, _, _, h | .array _, _, _, _, _, h => by
    simp only [brokerLoadDataNode, Option.some.injEq] at h
    exact h ▸ .refl _

theorem brokerLoadMembers_calls (hN : ∀ name ∈ dataActionNames, N name) :
    ∀ (members : List (CString × Json)) {σ σ' : Broker J} {n : NodeId}, MembersIn N members →
      brokerLoadMembers members σ n = some σ' → Calls cfg (Call.buildsNamed N) σ σ'
  | [], σ, σ', n, _, h => by
    rw [brokerLoadMembers] at h
    cases h
    exact .refl _
  | (key, value) :: rest, σ, σ', n, hkeys, h => by
    rw [MembersIn] at hkeys
    rw [brokerLoadMembers] at h
    obtain ⟨hkey, hrest⟩ := hkeys
    split at h
    · exact brokerLoadMembers_calls hN rest hrest h
    · rename_i hchild
      obtain ⟨hname, hvalue⟩ : N key ∧ KeysIn N value := by
        rcases hkey with hmeta | hmeta | hkey
        · exact absurd (.inl hmeta) hchild
        · exact absurd (.inr hmeta) hchild
        · exact hkey
      simp only [Option.bind_eq_bind, Option.bind_eq_some_iff] at h
      obtain ⟨⟨σ1, child⟩, h1, c, -, ⟨σ2, r⟩, h2, σ3, h3, h⟩ := h
      exact (brokerNodeAdd_works hname h1).calls.trans ((brokerCreateDataActions_works hN h2).calls.trans
        ((brokerLoadDataNode_calls hN value hvalue h3).trans (brokerLoadMembers_calls hN rest hrest h)))

end

/-- The path of a value file gives names out of `N`. -/
def PathIn (N : CString → Prop) (path : CString) : Prop :=
  ∀ name, slash ∉ name → (name = [] → [slash, slash] <:+: path) → N name

theorem deserializeDataNodeValues_calls {files : List (CString × J)} {now : J}
    (hfiles : ∀ file ∈ files, PathIn N file.1) (h : σ.deserializeDataNodeValues cfg files now = some σ') :
    Calls cfg (Call.buildsNamed N) σ σ' :=
  .foldlM (fun _ file hm _ h => (brokerCreateDynamicDataNode_works (hfiles file hm) h).calls) h

theorem rootOnly_get {n : NodeId} {node : BrokerNode J} (h : (rootOnly (J := J)).node.get n = some node) :
    node.children = .empty := by
  have hget : ((Heap.empty.alloc ⟨[slash], [], none, .empty, none, none, none⟩ : Heap (BrokerNode J)).get n)
      = some node := h
  rw [Heap.get_alloc] at hget
  split at hget
  · rw [← Option.some.inj hget]
  · cases hget

theorem rootOnly_entries (E : NodeId → CString → NodeRef → Prop) : (rootOnly (J := J)).Entries E := by
  intro p node k r hp hk
  rw [rootOnly_get hp] at hk
  cases hk

/-- The names of the nodes that `broker_init` itself adds. -/
def bootNames : List CString :=
  [cstr "sys", cstr "upstream", cstr "data", cstr "publish", cstr "downstream", cstr "defs"] ++ dataActionNames

theorem brokerDataNodePopulate_calls {n : NodeId} {files : List (CString × J)} {now : J}
    (hpublish : N (cstr "publish")) (hN : ∀ name ∈ dataActionNames, N name)
    (hfiles : ∀ file ∈ files, PathIn N file.1) (h : σ.brokerDataNodePopulate cfg n files now = some σ') :
    Calls cfg (Call.buildsNamed N) σ σ' := by
  simp only [brokerDataNodePopulate, Option.bind_eq_bind, Option.bind_eq_some_iff] at h
  obtain ⟨⟨σ1, r1⟩, h1, ⟨σ2, r2⟩, h2, ⟨σ3, r3⟩, h3, h⟩ := h
  have h1 : Calls cfg _ _ _ := (addAction_works (hN _ (by simp [dataActionNames])) h1).calls
  have h2 : Calls cfg _ _ _ := (addAction_works (hN _ (by simp [dataActionNames])) h2).calls
  have h3 : Calls cfg _ _ _ := (addAction_works hpublish h3).calls
  split at h
  · exact h1.trans (h2.trans (h3.trans (deserializeDataNodeValues_calls hfiles h)))
  · cases h

/-- A node that is added is younger than its parent, so it is not the first one. -/
theorem bootNode_calls {name : CString} {c : NodeId} (hname : N name) (h : σ.bootNode name = some (σ', c)) :
    Calls cfg (Call.buildsNamed N) σ σ' ∧ c ≠ 0 := by
  simp only [bootNode, Option.bind_eq_bind, Option.bind_eq_some_iff] at h
  obtain ⟨⟨τ, child⟩, hadd, c', hc, h⟩ := h
  cases h
  refine ⟨(brokerNodeAdd_works hname hadd).calls, ?_⟩
  rcases brokerNodeAdd_eq hadd with ⟨hr, -⟩ | ⟨c', node, hr, hp, rfl⟩
  · rw [hr] at hc
    cases hc
  · rw [hr] at hc
    cases hc
    exact Nat.ne_of_gt (Nat.lt_of_le_of_lt (Nat.zero_le _) (Heap.lt_next_of_get hp))

/-- `broker_init` is a sequence of calls, and then the nodes that links are put under are noted. -/
theorem brokerBoot_calls {data : Json} {files : List (CString × J)} {now : J}
    (hN : ∀ name ∈ bootNames, N name) (hdata : KeysIn N data) (hfiles : ∀ file ∈ files, PathIn N file.1)
    (h : brokerBoot cfg data files now = some σ) :
    ∃ τ up dn dt, Calls cfg (Call.buildsNamed N) rootOnly τ ∧ up ≠ 0 ∧ dn ≠ 0 ∧
      σ = { τ with upstream := up, data := dt, downstream := dn } := by
  have hactions : ∀ name ∈ dataActionNames, N name := fun name hm => hN name (List.mem_append_right _ hm)
  simp only [brokerBoot, Option.bind_eq_bind, Option.bind_eq_some_iff] at h
  obtain ⟨⟨σ1, c1⟩, h1, ⟨σ2, up⟩, h2, ⟨σ3, dt⟩, h3, σ4, h4, σ5, h5, ⟨σ6, dn⟩, h6, ⟨σ7, c7⟩, h7, h⟩ := h
  have h1 : Calls cfg _ _ _ ∧ _ := bootNode_calls (hN _ (by simp [bootNames])) h1
  have h2 : Calls cfg _ _ _ ∧ _ := bootNode_calls (hN _ (by simp [bootNames])) h2
  have h3 : Calls cfg _ _ _ ∧ _ := bootNode_calls (hN _ (by simp [bootNames])) h3
  have h4 : Calls cfg _ _ _ := brokerLoadDataNode_calls hactions data hdata h4
  have h5 := brokerDataNodePopulate_calls (hN _ (by simp [bootNames])) hactions hfiles h5
  have h6 : Calls cfg _ _ _ ∧ _ := bootNode_calls (hN _ (by simp [bootNames])) h6
  have h7 : Calls cfg _ _ _ ∧ _ := bootNode_calls (hN _ (by simp [bootNames])) h7
  refine ⟨σ7, up, dn, dt, ?_, h2.2, h6.2, (Option.some.inj h).symm⟩
  exact h1.1.trans (h2.1.trans (h3.1.trans (h4.trans (h5.trans (h6.1.trans h7.1)))))

end

theorem brokerBoot_tree {data : Json} {files : List (CString × J)} {now : J}
    (h : brokerBoot cfg data files now = some σ) : σ.TreeOk ∧ σ.ChildrenAbove := by
  obtain ⟨τ, up, dn, dt, hcalls, hup, hdn, rfl⟩ := brokerBoot_calls (N := fun _ => True) (fun _ _ => trivial)
    (KeysIn.true data) (fun _ _ _ _ _ => trivial) h
  have htree : τ.TreeOk := TreeOk.calls (.rootOnly rfl rfl rfl rfl) hcalls
  have hinv : (τ.root = 0 ∧ τ.Entries (fun p _ r => ∀ n, r = .regular n → p < n)) ∧
      τ.Entries (fun p _ r => ∀ d, r = .downstream d → p ≠ 0) := by
    refine Calls.invariant (fun τ => (τ.root = 0 ∧ τ.Entries _) ∧ τ.Entries _) hcalls ?_
      ⟨⟨rfl, rootOnly_entries _⟩, rootOnly_entries _⟩
    rintro τ c τ' ⟨⟨hroot, habove⟩, hlow⟩ ⟨hbuilds, -⟩ hrun
    have hnoLink : ∀ p k, c ≠ .newDnode p k := by
      rintro p k rfl
      exact hbuilds
    refine ⟨⟨(roots_call hrun).1.trans hroot, habove.call ?_ ?_ hrun⟩, hlow.call ?_ ?_ hrun⟩
    · rintro p k n - hlt m ⟨⟩
      exact hlt
    · exact fun p k d hc => absurd hc (hnoLink p k)
    · rintro p k n - - d ⟨⟩
    · exact fun p k d hc => absurd hc (hnoLink p k)
  exact ⟨⟨htree.rootLt, htree.root, htree.regular, htree.downstream⟩, hinv.1.1, ⟨hdn, hup⟩, hinv.1.2, hinv.2⟩

/-! ## From plain names to paths that identify -/

/-- The local node `q` is reached from `p` by the names `ks`. -/
def Walk (σ : Broker J) : NodeId → List CString → NodeId → Prop
  | p, [], q => p = q
  | p, k :: ks, q => ∃ node c, σ.node.get p = some node ∧ node.children.get k = some (.regular c) ∧ Walk σ c ks q

theorem Walk.snoc {p q c : NodeId} {ks : List CString} {k : CString} {node : BrokerNode J} (h : σ.Walk p ks q)
    (hq : σ.node.get q = some node) (hk : node.children.get k = some (.regular c)) : σ.Walk p (ks ++ [k]) c := by
  induction ks generalizing p with
  | nil =>
    obtain rfl : p = q := h
    exact ⟨node, c, hq, hk, rfl⟩
  | cons k' ks ih =>
    obtain ⟨pnode, c', hp, hk', hwalk⟩ := h
    exact ⟨pnode, c', hp, hk', ih hwalk⟩

/-- The text of a list of names. -/
def pathText (ks : List CString) : CString := ks.flatMap (fun k => slash :: k)

/-- The part of a path that is kept in the path of a child. -/
def pathStem (path : CString) : CString := if path = [slash] then [] else path

theorem pathStem_childPath {path k : CString} (hk : k ≠ []) :
    pathStem (childPath path k) = pathStem path ++ slash :: k := by
  have hne : childPath path k ≠ [slash] := by
    intro h
    have hlen := congrArg List.length h
    simp only [childPath, List.length_append, List.length_cons, List.length_nil] at hlen
    exact hk (List.length_eq_zero_iff.mp (by omega))
  rw [pathStem, if_neg hne]
  rfl

/-- Along plain names the path grows by the names. -/
theorem Walk.stem (h : σ.TreeOk) {p q : NodeId} {ks : List CString} (hw : σ.Walk p ks q)
    (hplain : ∀ k ∈ ks, Plain k) {pnode qnode : BrokerNode J} (hp : σ.node.get p = some pnode)
    (hq : σ.node.get q = some qnode) : pathStem qnode.path = pathStem pnode.path ++ pathText ks := by
  induction ks generalizing p pnode with
  | nil =>
    obtain rfl : p = q := hw
    obtain rfl := Option.some.inj (hp.symm.trans hq)
    exact (List.append_nil _).symm
  | cons k ks ih =>
    obtain ⟨node, c, hnode, hk, hw⟩ := hw
    obtain rfl := Option.some.inj (hp.symm.trans hnode)
    have hlive : ∃ cnode, σ.node.get c = some cnode := by
      cases ks with
      | nil =>
        obtain rfl : c = q := hw
        exact ⟨qnode, hq⟩
      | cons k' ks' =>
        obtain ⟨cnode, -, hc, -⟩ := hw
        exact ⟨cnode, hc⟩
    obtain ⟨cnode, hc⟩ := hlive
    obtain ⟨hkplain, hksplain⟩ := List.forall_mem_cons.mp hplain
    have hpath := ((h.regular p pnode k c hp hk).2 cnode hc).2
    have hstem := ih hw hksplain hc
    rw [hstem, hpath, pathStem_childPath hkplain.1, List.append_assoc]
    rfl

/-- Looking up goes down plain names one by one. -/
theorem brokerNodeGetLoop_walk {p q : NodeId} {ks : List CString} (hw : σ.Walk p ks q) (hplain : ∀ k ∈ ks, Plain k)
    {rest : CString} (hrest : rest.head? = some slash) (fuel : Nat) :
    σ.brokerNodeGetLoop (fuel + ks.length) p (pathText ks ++ rest) = σ.brokerNodeGetLoop fuel q rest := by
  induction ks generalizing p with
  | nil =>
    obtain rfl : p = q := hw
    rfl
  | cons k ks ih =>
    obtain ⟨node, c, hnode, hk, hw⟩ := hw
    obtain ⟨⟨hne, hslash⟩, hksplain⟩ := List.forall_mem_cons.mp hplain
    obtain ⟨text, htext⟩ : ∃ text, pathText ks ++ rest = slash :: text := by
      cases ks with
      | nil =>
        cases rest with
        | nil => cases hrest
        | cons c rest => exact ⟨rest, by rw [← Option.some.inj hrest]; rfl⟩
      | cons k' ks' => exact ⟨k' ++ (pathText ks' ++ rest), by simp [pathText]⟩
    have hpath : pathText (k :: ks) ++ rest = slash :: (k ++ slash :: text) := by
      rw [← htext]
      simp [pathText]
    rw [hpath, List.length_cons, ← Nat.add_assoc, brokerNodeGetLoop, if_neg (by simp [hne])]
    simp only [List.head?_cons, decide_true, if_true, List.tail_cons, splitSlash_append hslash, hnode, hk,
      Option.bind_eq_bind, Option.bind_some]
    rw [← htext]
    exact ih hw hksplain

/-- The last name of a path. -/
theorem brokerNodeGetLoop_last {q : NodeId} {k : CString} {r : NodeRef} {node : BrokerNode J}
    (hq : σ.node.get q = some node) (hk : node.children.get k = some r) (hplain : Plain k) (fuel : Nat) :
    ∃ out, σ.brokerNodeGetLoop (fuel + 1) q (slash :: k) = some (some (r, out)) := by
  obtain ⟨hne, hslash⟩ := hplain
  obtain ⟨c, k', rfl⟩ := List.exists_cons_of_ne_nil hne
  rw [brokerNodeGetLoop, if_neg (by simp)]
  simp only [List.head?_cons, decide_true, if_true, List.tail_cons, splitSlash_of_not_mem hslash, hq, hk,
    Option.bind_eq_bind, Option.bind_some]
  cases r with
  | regular n => exact ⟨_, rfl⟩
  | downstream d => exact ⟨_, rfl⟩

/-- A node of the tree other than the root is a child of a local node that is reached by names. -/
theorem InTree.walk {r : NodeRef} (h : σ.InTree r) : r = .regular σ.root ∨ ∃ ks q node k,
    σ.Walk σ.root ks q ∧ σ.node.get q = some node ∧ node.children.get k = some r := by
  induction h with
  | root => exact .inl rfl
  | child hp hnode hk ih =>
    refine .inr ?_
    rcases ih with hroot | ⟨ks, q, qnode, k', hw, hq, hk'⟩
    · cases hroot
      exact ⟨[], _, _, _, rfl, hnode, hk⟩
    · exact ⟨ks ++ [k'], _, _, _, hw.snoc hq hk', hnode, hk⟩

/-- The nodes on the way to a node are in the tree. -/
theorem Walk.inTree {p q : NodeId} {ks : List CString} (hw : σ.Walk p ks q) (hp : σ.InTree (.regular p)) :
    σ.InTree (.regular q) := by
  induction ks generalizing p with
  | nil =>
    obtain rfl : p = q := hw
    exact hp
  | cons k ks ih =>
    obtain ⟨node, c, hnode, hk, hw⟩ := hw
    exact ih hw (hp.child hnode hk)

/-- A child is never the root. -/
theorem ChildrenAbove.ne_root (h : σ.ChildrenAbove) {p : NodeId} {node : BrokerNode J} {k : CString} {r : NodeRef}
    (hp : σ.node.get p = some node) (hk : node.children.get k = some r) : r ≠ .regular σ.root := by
  rintro rfl
  have hlt := h.regular p node k _ hp hk σ.root rfl
  rw [h.root] at hlt
  exact Nat.not_lt_zero _ hlt

/-- The name that a live child is filed under is its own. -/
theorem TreeOk.nameOf_child (h : σ.TreeOk) {p : NodeId} {node : BrokerNode J} {k path : CString} {r : NodeRef}
    (hp : σ.node.get p = some node) (hk : node.children.get k = some r) (hlive : σ.pathOf r = some path) :
    σ.nameOf r = some k := by
  cases r with
  | regular n =>
    obtain ⟨child, hc, -⟩ := Option.map_eq_some_iff.mp hlive
    rw [nameOf, hc, Option.map_some, ((h.regular p node k n hp hk).2 child hc).1]
  | downstream d =>
    obtain ⟨child, hc, -⟩ := Option.map_eq_some_iff.mp hlive
    rw [nameOf, hc, Option.map_some, ((h.downstream p node k d hp hk).2 child hc).1]

/-- What has a name has a path. -/
theorem pathOf_of_nameOf {r : NodeRef} {name : CString} (h : σ.nameOf r = some name) :
    ∃ path, σ.pathOf r = some path := by
  cases r with
  | regular n =>
    obtain ⟨node, hnode, -⟩ := Option.map_eq_some_iff.mp h
    exact ⟨node.path, by simp [pathOf, hnode]⟩
  | downstream d =>
    obtain ⟨node, hnode, -⟩ := Option.map_eq_some_iff.mp h
    exact ⟨node.path, by simp [pathOf, hnode]⟩

/-- The path of a child of a node that plain names lead to. -/
theorem Walk.pathOf_child (htree : σ.TreeOk) (habove : σ.ChildrenAbove) {ks : List CString} {q : NodeId}
    {node root : BrokerNode J} {k path : CString} {r : NodeRef} (hw : σ.Walk σ.root ks q)
    (hplain : ∀ k ∈ ks, Plain k) (hroot : σ.node.get σ.root = some root) (hq : σ.node.get q = some node)
    (hk : node.children.get k = some r) (hpath : σ.pathOf r = some path) : path = pathText ks ++ slash :: k := by
  have hstem : pathStem node.path = pathText ks := by
    rw [hw.stem htree hplain hroot hq, htree.root root hroot]
    rfl
  cases r with
  | regular n =>
    obtain ⟨child, hc, rfl⟩ := Option.map_eq_some_iff.mp hpath
    rw [((htree.regular q node k n hq hk).2 child hc).2, ← hstem]
    rfl
  | downstream d =>
    obtain ⟨child, hc, rfl⟩ := Option.map_eq_some_iff.mp hpath
    have hne : node.path ≠ [slash] := by
      intro hslash
      -- links stand below another node than the root
      have hks : ks = [] := by
        rw [hslash] at hstem
        cases ks with
        | nil => rfl
        | cons k' ks' => cases hstem
      obtain rfl : σ.root = q := by
        rw [hks] at hw
        exact hw
      exact habove.downstream _ node k _ hq hk d rfl habove.root
    rw [((htree.downstream q node k d hq hk).2 child hc).2, ← hstem, pathStem, if_neg hne]

theorem length_pathText (ks : List CString) : ks.length ≤ (pathText ks).length := by
  induction ks with
  | nil => exact Nat.le_refl _
  | cons k ks ih =>
    simp only [pathText, List.flatMap_cons, List.length_append, List.length_cons] at ih ⊢
    omega

theorem brokerNodeGet_child {ks : List CString} {q : NodeId} {node : BrokerNode J} {k : CString} {r : NodeRef}
    (hw : σ.Walk σ.root ks q) (hplain : ∀ k ∈ ks, Plain k) (hq : σ.node.get q = some node)
    (hk : node.children.get k = some r) (hkplain : Plain k) :
    ∃ out, σ.brokerNodeGet (pathText ks ++ slash :: k) = some (some (r, out)) := by
  obtain ⟨fuel, hfuel⟩ : ∃ fuel, (pathText ks ++ slash :: k).length = (fuel + 1) + ks.length := by
    have hlen := length_pathText ks
    simp only [List.length_append, List.length_cons]
    exact ⟨(pathText ks).length - ks.length + k.length, by omega⟩
  rw [brokerNodeGet, hfuel, brokerNodeGetLoop_walk hw hplain rfl]
  exact brokerNodeGetLoop_last hq hk hkplain fuel

/-- The names on the way to a node of the tree are plain. -/
theorem NamesPlain.walk (h : σ.NamesPlain) (htree : σ.TreeOk) (habove : σ.ChildrenAbove) {p q : NodeId}
    {ks : List CString} {qnode : BrokerNode J} (hw : σ.Walk p ks q) (hp : σ.InTree (.regular p))
    (hq : σ.node.get q = some qnode) : ∀ k ∈ ks, Plain k := by
  induction ks generalizing p with
  | nil => simp
  | cons k ks ih =>
    obtain ⟨node, c, hnode, hk, hw⟩ := hw
    have hc := hp.child hnode hk
    have hlive : ∃ cnode, σ.node.get c = some cnode := by
      cases ks with
      | nil =>
        obtain rfl : c = q := hw
        exact ⟨qnode, hq⟩
      | cons k' ks' =>
        obtain ⟨cnode, -, hcnode, -⟩ := hw
        exact ⟨cnode, hcnode⟩
    obtain ⟨cnode, hcnode⟩ := hlive
    have hname := htree.nameOf_child hnode hk (show _ = some cnode.path by simp [pathOf, hcnode])
    exact List.forall_mem_cons.mpr ⟨h _ k hc (habove.ne_root hnode hk) hname, ih hw hc⟩

theorem NamesPlain.identify (h : σ.NamesPlain) (htree : σ.TreeOk) (habove : σ.ChildrenAbove) : σ.PathsIdentify := by
  have hfind : ∀ r path, σ.InTree r → σ.pathOf r = some path →
      ∃ out, σ.brokerNodeGet path = some (some (r, out)) := by
    intro r path hr hpath
    rcases hr.walk with rfl | ⟨ks, q, node, k, hw, hq, hk⟩
    · obtain ⟨root, hroot, rfl⟩ := Option.map_eq_some_iff.mp hpath
      rw [htree.root root hroot]
      exact ⟨[], rfl⟩
    · have hplain := h.walk htree habove hw .root hq
      have hroot : ∃ root, σ.node.get σ.root = some root := by
        cases ks with
        | nil =>
          obtain rfl : σ.root = q := hw
          exact ⟨node, hq⟩
        | cons k' ks' =>
          obtain ⟨root, -, hroot, -⟩ := hw
          exact ⟨root, hroot⟩
      obtain ⟨root, hroot⟩ := hroot
      have hkplain : Plain k := h r k hr (habove.ne_root hq hk) (htree.nameOf_child hq hk hpath)
      rw [hw.pathOf_child htree habove hplain hroot hq hk hpath]
      exact brokerNodeGet_child hw hplain hq hk hkplain
  refine fun r path hr hpath => ⟨hfind r path hr hpath, fun r' hr' hpath' => ?_⟩
  -- a path has one meaning
  obtain ⟨out, hget⟩ := hfind r path hr hpath
  obtain ⟨out', hget'⟩ := hfind r' path hr' hpath'
  rw [hget] at hget'
  cases hget'
  rfl

/-! ## And back -/

theorem Walk.of_snoc {p q : NodeId} {ks : List CString} {k : CString} (h : σ.Walk p (ks ++ [k]) q) :
    ∃ m node, σ.Walk p ks m ∧ σ.node.get m = some node ∧ node.children.get k = some (.regular q) := by
  induction ks generalizing p with
  | nil =>
    obtain ⟨node, c, hnode, hk, hw⟩ := h
    obtain rfl : c = q := hw
    exact ⟨p, node, rfl, hnode, hk⟩
  | cons k' ks ih =>
    obtain ⟨node, c, hnode, hk', hw⟩ := h
    obtain ⟨m, mnode, hm, hmnode, hk⟩ := ih hw
    exact ⟨m, mnode, ⟨node, c, hnode, hk', hm⟩, hmnode, hk⟩

/-- A node that is found under its path, below plain names, has a plain name. -/
theorem PathsIdentify.plain_child (h : σ.PathsIdentify) (htree : σ.TreeOk) (habove : σ.ChildrenAbove)
    {ks : List CString} {p : NodeId} {root node : BrokerNode J} {k path : CString} {r : NodeRef}
    (hw : σ.Walk σ.root ks p) (hplain : ∀ k ∈ ks, Plain k) (hroot : σ.node.get σ.root = some root)
    (hp : σ.node.get p = some node) (hk : node.children.get k = some r) (hpath : σ.pathOf r = some path) :
    Plain k := by
  obtain ⟨⟨out, hget⟩, -⟩ := h r path ((hw.inTree .root).child hp hk) hpath
  rw [hw.pathOf_child htree habove hplain hroot hp hk hpath, brokerNodeGet] at hget
  obtain ⟨fuel, hfuel⟩ : ∃ fuel, (pathText ks ++ slash :: k).length = (fuel + 1) + ks.length := by
    have hlen := length_pathText ks
    simp only [List.length_append, List.length_cons]
    exact ⟨(pathText ks).length - ks.length + k.length, by omega⟩
  rw [hfuel, brokerNodeGetLoop_walk hw hplain rfl] at hget
  -- the parent is older than its child, so the lookup does not end at it
  have hne : r ≠ .regular p := by
    rintro rfl
    exact Nat.lt_irrefl _ (habove.regular p node k _ hp hk p rfl)
  refine ⟨?_, ?_⟩
  · rintro rfl
    rw [brokerNodeGetLoop, if_pos rfl] at hget
    cases hget
    exact hne rfl
  · rcases brokerNodeGetLoop_found hget with hself | ⟨q, qnode, name, hslash, hq, hname⟩
    · exact absurd hself hne
    · have hkname := (htree.nameOf_child hp hk hpath).symm.trans (htree.nameOf_child hq hname hpath)
      rw [Option.some.inj hkname]
      exact hslash

theorem PathsIdentify.namesPlain (h : σ.PathsIdentify) (htree : σ.TreeOk) (habove : σ.ChildrenAbove) :
    σ.NamesPlain := by
  -- on the names that lead to a live node, from the last one on
  have hways : ∀ (ks : List CString) (q : NodeId) (qnode : BrokerNode J), σ.Walk σ.root ks q →
      σ.node.get q = some qnode → (∀ k ∈ ks, Plain k) ∧ ∃ root, σ.node.get σ.root = some root := by
    intro ks
    induction ks using List.reverseRecOn with
    | nil =>
      intro q qnode hw hq
      obtain rfl : σ.root = q := hw
      exact ⟨by simp, qnode, hq⟩
    | append_singleton ks k ih =>
      intro q qnode hw hq
      obtain ⟨p, node, hwp, hp, hk⟩ := hw.of_snoc
      obtain ⟨hplain, root, hroot⟩ := ih p node hwp hp
      have hkplain := h.plain_child htree habove hwp hplain hroot hp hk (show _ = some qnode.path by simp [pathOf, hq])
      refine ⟨fun k' hk' => ?_, root, hroot⟩
      rcases List.mem_append.mp hk' with hk' | hk'
      · exact hplain k' hk'
      · rw [List.mem_singleton.mp hk']
        exact hkplain
  intro r name hr hne hname
  rcases hr.walk with rfl | ⟨ks, q, node, k, hw, hq, hk⟩
  · exact absurd rfl hne
  · obtain ⟨hplain, root, hroot⟩ := hways ks q node hw hq
    obtain ⟨path, hpath⟩ := pathOf_of_nameOf hname
    have hk' := htree.nameOf_child hq hk hpath
    obtain rfl := Option.some.inj (hk'.symm.trans hname)
    exact h.plain_child htree habove hw hplain hroot hq hk hpath

end Broker

/-! ## The run theorem -/

/-- The names that a request gives to new nodes are plain. A path that is looked up in vain gives the names
    between its slashes. -/
def Event.Plain (σ : Broker J) : Event J → Prop
  | .initDownstream name | .initUpstream name | .addLocal _ name => Broker.Plain name
  | .invoke n name _ => ∀ node k, σ.node.get n = some node →
      (node.onInvoke = some .addNode ∨ node.onInvoke = some .addValue) → name = some k → Broker.Plain k
  | .publish path _ _ => σ.brokerNodeGet path = some none → startsWith path (cstr "/data") = true →
      ¬ [slash, slash] <:+: path
  | .set path _ _ => σ.brokerNodeGet path = some none → (lastSegment path).head? ≠ some 36 →
      startsWith path (cstr "/data") = true → ¬ [slash, slash] <:+: path
  | _ => True

namespace Broker

/-- The stored data has plain names. -/
def StoredPlain (data : Json) (files : List (CString × J)) : Prop :=
  KeysIn Plain data ∧ ∀ file ∈ files, ¬ [slash, slash] <:+: file.1

/-- A broker that was just started. -/
def Booted (cfg : Config) (σ : Broker J) : Prop :=
  ∃ data files now, brokerBoot cfg data files now = some σ

/-- A broker that was just started with plain names. -/
def BootedPlain (cfg : Config) (σ : Broker J) : Prop :=
  ∃ data files now, StoredPlain data files ∧ brokerBoot cfg data files now = some σ

theorem pathIn_plain {path : CString} (h : ¬ [slash, slash] <:+: path) : PathIn Plain path :=
  fun _ hslash hempty => ⟨fun he => h (hempty he), hslash⟩

theorem dataActionNames_names : ∀ name ∈ dataActionNames, Plain name := by decide

theorem bootNames_plain : ∀ name ∈ bootNames, Plain name := by decide

theorem step_calls_plain {e : Event J} (he : e.Plain σ) (hs : step cfg σ e = some σ') :
    Calls cfg (Call.names Plain) σ σ' := by
  have hbuilds : ∀ c : Call J, c.buildsNamed Plain → c.names Plain := fun _ => And.right
  have hother : (∀ c, e.calls c → c.names Plain) → Calls cfg (Call.names Plain) σ σ' := (step_calls hs).mono
  cases e with
  | initDownstream name =>
    rcases (initNode_eq hs : _ ∨ Call.run cfg _ _ = _) with rfl | hrun
    · exact .refl _
    · exact .one (.newDnode σ.downstream name) he hrun
  | initUpstream name =>
    rcases (initNode_eq hs : _ ∨ Call.run cfg _ _ = _) with rfl | hrun
    · exact .refl _
    · exact .one (.newDnode σ.upstream name) he hrun
  | addLocal parent name =>
    apply hother
    rintro c rfl
    exact he
  | nodeValue n value now => exact (brokerNodeUpdateValue_works hs).calls.mono hbuilds
  | invoke n name now =>
    simp only [step, invokeAction, Option.bind_eq_bind, Option.bind_eq_some_iff] at hs
    obtain ⟨node, hn, action, haction, hs⟩ := hs
    cases action with
    | addNode =>
      exact (onAddNodeInvoked_works (fun k => he node k hn (.inl haction)) dataActionNames_names hs).calls.mono hbuilds
    | addValue =>
      exact (onAddValueInvoked_works (fun k => he node k hn (.inr haction)) dataActionNames_names hs).calls.mono hbuilds
    | deleteNode => exact (onDeleteNodeInvoked_works hs).calls.mono hbuilds
    | publish => cases hs
  | publish path value now =>
    exact (onPublishContinuousInvoked_works (fun hnone hdata => pathIn_plain (he hnone hdata)) hs).calls.mono hbuilds
  | set path value now =>
    exact (brokerMsgHandleSet_works (fun hnone hattr hdata => pathIn_plain (he hnone hattr hdata)) hs).calls.mono hbuilds
  | _ =>
    apply hother
    intro c hc
    cases c <;> first | trivial | simp [Event.calls, Call.subscribes] at hc

/-- Every entry has a plain name. -/
def EntriesPlain (σ : Broker J) : Prop := σ.Entries (fun _ k _ => Plain k)

theorem EntriesPlain.calls {τ : Broker J} (h : σ.EntriesPlain) (hs : Calls cfg (Call.names Plain) σ τ) :
    τ.EntriesPlain := by
  refine Calls.invariant EntriesPlain hs (fun σ c σ' hinv hc hrun => hinv.call ?_ ?_ hrun) h
  · rintro p k n rfl -
    exact hc
  · rintro p k d rfl
    exact hc

theorem EntriesPlain.namesPlain (h : σ.EntriesPlain) (htree : σ.TreeOk) : σ.NamesPlain := by
  intro r name hr hne hname
  cases hr with
  | root => exact absurd rfl hne
  | child hp hnode hk =>
    obtain ⟨path, hpath⟩ := pathOf_of_nameOf hname
    obtain rfl := Option.some.inj ((htree.nameOf_child hnode hk hpath).symm.trans hname)
    exact h _ _ _ _ hnode hk

/-- Where every node stands, in every reachable state. -/
theorem reach_placed {ok : Broker J → Event J → Prop} (h : Reach (step cfg) ok (Booted cfg) σ) :
    σ.TreeOk ∧ σ.ChildrenAbove := by
  refine Reach.invariant (fun σ => σ.TreeOk ∧ σ.ChildrenAbove) ?_ ?_ h
  · rintro σ ⟨data, files, now, hboot⟩
    exact brokerBoot_tree hboot
  · rintro σ e σ' ⟨htree, habove⟩ - hs
    exact ⟨htree.calls (step_calls hs), habove.step hs⟩

/-- In every reachable state paths identify nodes if and only if every name below the root is plain; and they
    do in every run of a broker that was started with plain names and gets plain names. -/
theorem paths_identify :
    (∀ σ : Broker J, Reach (step cfg) (fun _ _ => True) (Booted cfg) σ → (σ.PathsIdentify ↔ σ.NamesPlain)) ∧
      ∀ σ : Broker J, Reach (step cfg) (fun σ e => e.Plain σ) (BootedPlain cfg) σ → σ.PathsIdentify := by
  refine ⟨fun σ h => ?_, fun σ h => ?_⟩
  · obtain ⟨htree, habove⟩ := reach_placed h
    exact ⟨fun hid => hid.namesPlain htree habove, fun hplain => hplain.identify htree habove⟩
  · have hbooted : Reach (step cfg) (fun σ e => e.Plain σ) (Booted cfg) σ :=
      h.of_init (fun σ ⟨data, files, now, _, hboot⟩ => ⟨data, files, now, hboot⟩)
    obtain ⟨htree, habove⟩ := reach_placed hbooted
    have hplain : σ.EntriesPlain := by
      refine Reach.invariant EntriesPlain ?_ (fun σ e σ' hinv he hs => hinv.calls (step_calls_plain he hs)) h
      rintro σ ⟨data, files, now, ⟨hkeys, hfiles⟩, hboot⟩
      obtain ⟨τ, up, dn, dt, hcalls, -, -, rfl⟩ := brokerBoot_calls bootNames_plain hkeys
        (fun file hm => pathIn_plain (hfiles file hm)) hboot
      have hτ : τ.EntriesPlain := EntriesPlain.calls (rootOnly_entries _) (hcalls.mono (fun _ => And.right))
      exact hτ
    exact (hplain.namesPlain htree).identify htree habove

/-- A node that is added and one that a path creates, both with plain names. -/
theorem paths_identify_data : ∃ σ : Broker Unit, σ.PathsIdentify ∧
    (∃ out, σ.brokerNodeGet (cstr "/data/a") = some (some (.regular 9, out))) ∧
    (∃ out, σ.brokerNodeGet (cstr "/data/b/c") = some (some (.regular 17, out))) := by
  have heval : ((brokerBoot smallConfig (.object []) [] ()).bind (fun σ : Broker Unit =>
      runFrom (step smallConfig) σ [.invoke 4 (some (cstr "a")) (), .set (cstr "/data/b/c") () ()])).any
      (fun σ => decide (σ.brokerNodeGet (cstr "/data/a") = some (some (.regular 9, []))) &&
        decide (σ.brokerNodeGet (cstr "/data/b/c") = some (some (.regular 17, [])))) = true := by
    rfl
  obtain ⟨σ, hσ, hcheck⟩ := (Option.any_eq_true _ _).mp heval
  obtain ⟨σ0, hboot, hrun⟩ := Option.bind_eq_some_iff.mp hσ
  simp only [Bool.and_eq_true, decide_eq_true_eq] at hcheck
  have hstored : StoredPlain (.object []) ([] : List (CString × Unit)) := by
    refine ⟨?_, by simp⟩
    rw [KeysIn, MembersIn]
    trivial
  have hok : RunOk (step smallConfig) (fun σ e => e.Plain σ) σ0
      [.invoke 4 (some (cstr "a")) (), .set (cstr "/data/b/c") () ()] := by
    refine ⟨?_, fun _ _ => ⟨?_, fun _ _ => trivial⟩⟩
    · rintro node k - - ⟨⟩
      decide
    · rintro - - -
      decide +kernel
  have hreach : Reach (step smallConfig) (fun σ e => e.Plain σ) (BootedPlain smallConfig) σ :=
    .of_run (.start ⟨_, _, _, hstored, hboot⟩) hok hrun
  exact ⟨σ, paths_identify.2 σ hreach, ⟨_, hcheck.1⟩, ⟨_, hcheck.2⟩⟩

/-- A node with a slash in its name is not found under its path. -/
theorem paths_identify_slash : ∃ σ : Broker Unit,
    Reach (step smallConfig) (fun _ _ => True) (Booted smallConfig) σ ∧ ¬ σ.PathsIdentify := by
  have heval : ((brokerBoot smallConfig (.object []) [] ()).bind (fun σ : Broker Unit =>
      runFrom (step smallConfig) σ [.invoke 4 (some (cstr "a/b")) ()])).any
      (fun σ => decide (σ.brokerNodeGet (cstr "/data/a/b") = some none) &&
        decide (σ.pathOf (.regular 9) = some (cstr "/data/a/b")) &&
        decide ((σ.node.get σ.root).bind (fun node => node.children.get (cstr "data")) = some (.regular 3)) &&
        decide ((σ.node.get 3).bind (fun node => node.children.get (cstr "a/b")) = some (.regular 9))) = true := by
    rfl
  obtain ⟨σ, hσ, hcheck⟩ := (Option.any_eq_true _ _).mp heval
  obtain ⟨σ0, hboot, hrun⟩ := Option.bind_eq_some_iff.mp hσ
  simp only [Bool.and_eq_true, decide_eq_true_eq] at hcheck
  obtain ⟨⟨⟨hget, hpath⟩, hdata⟩, hchild⟩ := hcheck
  obtain ⟨root, hroot, hdata⟩ := Option.bind_eq_some_iff.mp hdata
  obtain ⟨node, hnode, hchild⟩ := Option.bind_eq_some_iff.mp hchild
  have htree : σ.InTree (.regular 9) := (InTree.root.child hroot hdata).child hnode hchild
  refine ⟨σ, Reach.of_run (.start ⟨_, _, _, hboot⟩) (RunOk.of_forall (p := fun _ => True) (by simp)) hrun, ?_⟩
  intro hid
  obtain ⟨⟨out, hfound⟩, -⟩ := hid _ _ htree hpath
  rw [hget] at hfound
  cases hfound

end Broker

end DSLink
