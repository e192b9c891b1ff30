import DSLink.Broker.LocalList
import DSLink.Lib.Run
import DSLink.Lib.View

/-!
# `Broker.Rows` — what moves the rows of a list cache

The source of the views is `buildListCache`, the views are the caches of the list streams that are open. Every handler
is a sequence of moves of the source and of patches; `Behind E` says that the caches agree outside of `E`.

## Contents
- `get_buildListCache`: a member of a cache is the row of a child, or else a member of the `meta`.
- `Wf`, `Behind`. Patches take a place out of `E`; nodes that come and go put one in.
- `LinkMoves`: what the operations on links and on the nodes of links can move. List requests move nothing.
-/

namespace DSLink.LocalList

variable {σ τ υ : Broker} {p q : Path} {k key name : CString}

namespace Broker

/-! ## The parts of a changed node -/

theorem get_modNode (f : BrokerNode → BrokerNode) :
    (σ.modNode p f).node.get q = if q = p then (σ.node.get p).map f else σ.node.get q := by
  unfold modNode
  cases hp : σ.node.get p with
  | none =>
    by_cases hq : q = p
    · simp [hq, hp]
    · simp [hq]
  | some n => simp [AssocMap.get_set]

@[simp] theorem modNode_stream (f : BrokerNode → BrokerNode) : (σ.modNode p f).stream = σ.stream := by
  unfold modNode
  split <;> rfl

@[simp] theorem modNode_link (f : BrokerNode → BrokerNode) : (σ.modNode p f).link = σ.link := by
  unfold modNode
  split <;> rfl

theorem metadata_modNode (f : BrokerNode → BrokerNode) (hf : ∀ n, (f n).metadata = n.metadata) :
    (σ.modNode p f).metadata q = σ.metadata q := by
  unfold metadata
  rw [get_modNode]
  split
  · rename_i hq
    subst hq
    cases σ.node.get q with
    | none => rfl
    | some n => exact hf n
  · rfl

theorem listStream_modNode (f : BrokerNode → BrokerNode) (hf : ∀ n, (f n).listStream = n.listStream) :
    (σ.modNode p f).listStream q = σ.listStream q := by
  unfold listStream
  rw [get_modNode]
  split
  · rename_i hq
    subst hq
    cases σ.node.get q with
    | none => rfl
    | some n => exact hf n
  · rfl

theorem linkOf_modNode (f : BrokerNode → BrokerNode) (hf : ∀ n, (f n).link = n.link) :
    (σ.modNode p f).linkOf q = σ.linkOf q := by
  unfold linkOf
  rw [get_modNode]
  split
  · rename_i hq
    subst hq
    cases σ.node.get q with
    | none => rfl
    | some n => exact hf n
  · rfl

end Broker

/-- `node->type == DOWNSTREAM_NODE`. -/
def BrokerNode.isDownstream (n : BrokerNode) : Bool :=
  match n.kind with
  | .regular _ => false
  | .downstream _ _ => true

theorem BrokerNode.modDownstream_metadata {f : BrokerNode → BrokerNode} (hf : ∀ n, (f n).metadata = n.metadata)
    (n : BrokerNode) : (n.modDownstream f).metadata = n.metadata := by
  unfold modDownstream
  split
  · rfl
  · exact hf n

theorem BrokerNode.modDownstream_listStream {f : BrokerNode → BrokerNode}
    (hf : ∀ n, n.listStream = none → (f n).listStream = none) (n : BrokerNode) :
    (n.modDownstream f).listStream = n.listStream := by
  unfold modDownstream
  split
  · rfl
  · rename_i hkind
    have hn : n.listStream = none := by simp [listStream, hkind]
    rw [hf n hn, hn]

theorem BrokerNode.modDownstream_link {f : BrokerNode → BrokerNode} (hf : ∀ n, (f n).link = n.link) (n : BrokerNode) :
    (n.modDownstream f).link = n.link := by
  unfold modDownstream
  split
  · rfl
  · exact hf n

theorem BrokerNode.setListStream_metadata (n : BrokerNode) (s : Option ListStreamId) :
    (n.setListStream s).metadata = n.metadata := by
  unfold setListStream
  split <;> rfl

theorem BrokerNode.setListStream_isDownstream (n : BrokerNode) (s : Option ListStreamId) :
    (n.setListStream s).isDownstream = n.isDownstream := by
  unfold setListStream
  split
  · rename_i hkind
    simp [isDownstream, hkind]
  · rfl

theorem BrokerNode.setListStream_link (n : BrokerNode) (s : Option ListStreamId) :
    (n.setListStream s).link = n.link := by
  unfold setListStream
  split
  · rename_i hkind
    simp [link, hkind]
  · rfl

theorem get_setMember (object : Metadata) (key k : CString) (value : Option Json) :
    (setMember object key value).get k = if k = key then value else object.get k := by
  cases value with
  | none => exact AssocMap.get_erase object key k
  | some value => exact AssocMap.get_set object key k value

/-! ## What a built cache has -/

theorem get_foldl_set_of_not_mem {β : Type} {f : β → Json} {l : List (CString × β)} {cache : Metadata} {k : CString}
    (h : ∀ b, (k, b) ∉ l) : (l.foldl (fun cache e => cache.set e.1 (f e.2)) cache).get k = cache.get k := by
  induction l generalizing cache with
  | nil => rfl
  | cons e l ih =>
    rw [List.foldl_cons, ih (fun b hb => h b (List.mem_cons_of_mem _ hb)), AssocMap.get_set_ne]
    rintro rfl
    exact h e.2 List.mem_cons_self

theorem get_foldl_set_of_mem {β : Type} {f : β → Json} {l : List (CString × β)} {cache : Metadata} {k : CString} {b : β}
    (h : ∀ b', (k, b') ∈ l → b' = b) (hb : (k, b) ∈ l ∨ cache.get k = some (f b)) :
    (l.foldl (fun cache e => cache.set e.1 (f e.2)) cache).get k = some (f b) := by
  induction l generalizing cache with
  | nil => exact hb.resolve_left (List.not_mem_nil)
  | cons e l ih =>
    apply ih (fun b' hb' => h b' (List.mem_cons_of_mem _ hb'))
    by_cases he : k = e.1
    · subst he
      rw [AssocMap.get_set_self, h e.2 List.mem_cons_self]
      exact .inr rfl
    · rw [AssocMap.get_set_ne he]
      rcases hb with hb | hb
      · rcases List.mem_cons.mp hb with hb | hb
        · exact absurd (congrArg Prod.fst hb) he
        · exact .inl hb
      · exact .inr hb

theorem get_setIfAny {cache : Metadata} {key k : CString} {value : Option Json} :
    (Site.setIfAny cache key value).get k = if k = key then value.or (cache.get k) else cache.get k := by
  cases value with
  | none => simp [Site.setIfAny]
  | some value => simp [Site.setIfAny, AssocMap.get_set]

namespace Broker

theorem mem_children {n : BrokerNode} : (k, n) ∈ σ.children p ↔ σ.node.get (k :: p) = some n := by
  unfold children
  rw [List.mem_filterMap, ← AssocMap.mem_entries]
  constructor
  · rintro ⟨⟨q, m⟩, hm, he⟩
    cases q with
    | nil => cases he
    | cons name q =>
      by_cases hq : q = p
      · have he : (name, m) = (k, n) := by simpa [hq] using he
        cases he
        exact hq ▸ hm
      · simp [hq] at he
  · intro hm
    exact ⟨_, hm, by simp⟩

/-- The row of a node in the cache of its parent. -/
def rowAt (σ : Broker) (q : Path) : Option Json := (σ.node.get q).map σ.childRow

theorem get_buildListCache : (σ.buildListCache p).get k = (σ.rowAt (k :: p)).or ((σ.metadata p).get k) := by
  unfold buildListCache
  dsimp only
  -- below the rows of the children the cache is the `meta`
  have hmeta : (((σ.metadata p).entries.foldl (fun cache e => cache.set e.1 e.2)
      (Site.setIfAny .empty (cstr "$is") ((σ.metadata p).get (cstr "$is")))) : Metadata).get k =
      (σ.metadata p).get k := by
    cases hk : (σ.metadata p).get k with
    | none =>
      have hno : ∀ b, (k, b) ∉ (σ.metadata p).entries := by
        intro b hb
        rw [AssocMap.mem_entries, hk] at hb
        cases hb
      rw [show (fun (cache : Metadata) (e : CString × Json) => cache.set e.1 e.2) =
        (fun cache e => cache.set e.1 (id e.2)) from rfl, get_foldl_set_of_not_mem hno, get_setIfAny]
      split
      · rename_i his
        rw [← his, hk]
        rfl
      · rfl
    | some b =>
      refine get_foldl_set_of_mem (f := id) (fun b' hb' => ?_) (.inl (AssocMap.mem_entries.mpr hk))
      rw [AssocMap.mem_entries, hk] at hb'
      exact (Option.some.inj hb').symm
  unfold rowAt
  cases hk : σ.node.get (k :: p) with
  | none =>
    have hno : ∀ n, (k, n) ∉ σ.children p := by
      intro n hn
      rw [mem_children, hk] at hn
      cases hn
    rw [get_foldl_set_of_not_mem hno, hmeta]
    rfl
  | some n =>
    refine get_foldl_set_of_mem (fun n' hn' => ?_) (.inl (mem_children.mpr hk))
    rw [mem_children, hk] at hn'
    exact (Option.some.inj hn').symm

/-! ## Views, source, invariant -/

/-- The caches of the open list streams. -/
def views (σ : Broker) : Path → Option (CString → Option Json) :=
  fun p => ((σ.listStream p).bind σ.stream.get).map (fun st => st.updatesCache.get)

/-- What `build_list_cache` would give. -/
def source (σ : Broker) (p : Path) (k : CString) : Option Json := (σ.buildListCache p).get k

/-- The members of the row of a node that come from its `meta`. -/
def topAt (σ : Broker) (q : Path) : Option Metadata := (σ.node.get q).map listSetTopLevel

/-- `node->link->linkData` of the node at a path. -/
def linkDataAt (σ : Broker) (q : Path) : Option Json := ((σ.linkOf q).bind σ.link.get).bind RemoteDSLink.linkData

theorem rowAt_eq : σ.rowAt q =
    (σ.topAt q).map (fun top => .object (Site.setIfAny top (cstr "$linkData") (σ.linkDataAt q)).entries) := by
  unfold rowAt topAt linkDataAt linkOf childRow linkData
  cases σ.node.get q <;> rfl

/-- The source at a place depends on one row and one member. -/
theorem source_congr (htop : τ.topAt (k :: p) = σ.topAt (k :: p))
    (hdata : τ.linkDataAt (k :: p) = σ.linkDataAt (k :: p))
    (hmeta : (τ.metadata p).get k = (σ.metadata p).get k) : τ.source p k = σ.source p k := by
  unfold source
  rw [get_buildListCache, get_buildListCache, rowAt_eq, rowAt_eq, htop, hdata, hmeta]

/-- Pointers lead to what is there: a list stream knows its node, and a link stands on the node of its name. -/
structure Wf (σ : Broker) : Prop where
  streams : ∀ {p s}, σ.listStream p = some s → ∃ st, σ.stream.get s = some st ∧ st.node = p
  links : ∀ {p L}, σ.linkOf p = some L → ∃ link, σ.link.get L = some link ∧ link.home = p

theorem Wf.views_eq_none (h : σ.Wf) : σ.views p = none ↔ σ.listStream p = none := by
  unfold views
  cases hp : σ.listStream p with
  | none => simp
  | some s =>
    obtain ⟨st, hst, -⟩ := h.streams hp
    simp [hst]

/-- Well formed, and the caches are current outside of `E`. -/
structure Behind (E : Set (Path × CString)) (σ : Broker) : Prop where
  wf : σ.Wf
  current : Current E σ.views σ.source

variable {E E' : Set (Path × CString)} {D : Set Path}

/-- Places whose node is not listed do not count. -/
theorem Behind.shrink (h : Behind E σ) (hE : ∀ p k, (p, k) ∈ E → (p, k) ∉ E' → σ.listStream p = none) :
    Behind E' σ :=
  ⟨h.wf, h.current.shrink (fun p k hk hk' => h.wf.views_eq_none.mpr (hE p k hk hk'))⟩

/-- A move loses list streams, or keeps them with their caches. -/
structure Lists (σ τ : Broker) : Prop where
  listStream : ∀ p, τ.listStream p = none ∨ τ.listStream p = σ.listStream p
  stream : ∀ p s, τ.listStream p = some s → ∀ st, σ.stream.get s = some st →
    ∃ st', τ.stream.get s = some st' ∧ st'.node = st.node ∧ st'.updatesCache = st.updatesCache

theorem Lists.refl (σ : Broker) : Lists σ σ :=
  ⟨fun _ => .inr rfl, fun _ _ _ st hst => ⟨st, hst, rfl, rfl⟩⟩

theorem Lists.old (h : Lists σ τ) {s : ListStreamId} (hp : τ.listStream p = some s) : σ.listStream p = some s := by
  rcases h.listStream p with hn | he
  · rw [hn] at hp
    cases hp
  · rw [← he, hp]

theorem Lists.trans (h : Lists σ τ) (h' : Lists τ υ) : Lists σ υ := by
  refine ⟨fun p => ?_, fun p s hp st hst => ?_⟩
  · rcases h'.listStream p with hn | he
    · exact .inl hn
    · rw [he]
      exact h.listStream p
  · obtain ⟨st', hst', hn', hc'⟩ := h.stream p s (h'.old hp) st hst
    obtain ⟨st'', hst'', hn'', hc''⟩ := h'.stream p s hp st' hst'
    exact ⟨st'', hst'', hn''.trans hn', hc''.trans hc'⟩

theorem Lists.of_eq (hs : τ.stream = σ.stream) (hl : ∀ p, τ.listStream p = none ∨ τ.listStream p = σ.listStream p) :
    Lists σ τ := ⟨hl, fun _ _ _ st hst => ⟨st, hs ▸ hst, rfl, rfl⟩⟩

theorem Lists.streams (h : Lists σ τ) (hσ : σ.Wf) {s : ListStreamId} (hp : τ.listStream p = some s) :
    ∃ st, τ.stream.get s = some st ∧ st.node = p := by
  obtain ⟨st, hst, hn⟩ := hσ.streams (h.old hp)
  obtain ⟨st', hst', hn', -⟩ := h.stream p s hp st hst
  exact ⟨st', hst', hn'.trans hn⟩

theorem Lists.views (h : Lists σ τ) (hσ : σ.Wf) (p : Path) : τ.views p = none ∨ τ.views p = σ.views p := by
  cases hp : τ.listStream p with
  | none => exact .inl (by simp [Broker.views, hp])
  | some s =>
    refine .inr ?_
    obtain ⟨st, hst, -⟩ := hσ.streams (h.old hp)
    obtain ⟨st', hst', -, hc⟩ := h.stream p s hp st hst
    simp [Broker.views, hp, h.old hp, hst, hst', hc]

/-- The source moves at places of `E'`. -/
theorem Behind.move (h : Behind E σ) (hl : Lists σ τ)
    (hlinks : ∀ p L, τ.linkOf p = some L → ∃ link, τ.link.get L = some link ∧ link.home = p)
    (hs : ∀ p k, (p, k) ∉ E' → τ.listStream p ≠ none → τ.source p k = σ.source p k) : Behind (E ∪ E') τ := by
  have hwf : τ.Wf := ⟨fun hp => hl.streams h.wf hp, fun hp => hlinks _ _ hp⟩
  refine ⟨hwf, h.current.move (hl.views h.wf) (fun p k hk hv => hs p k hk ?_)⟩
  rwa [ne_eq, ← hwf.views_eq_none]

/-! ## Patches -/

theorem get_patch_self {s : ListStreamId} {st : BrokerListStream} (hs : σ.stream.get s = some st) (key : CString)
    (value : Option Json) : (σ.patch s key value).stream.get s =
      some { st with updatesCache := setMember st.updatesCache key value } := by
  rw [patch, Heap.get_modify_self, hs, Option.map_some]

theorem get_patch_ne {s s' : ListStreamId} (hs : s' ≠ s) (key : CString) (value : Option Json) :
    (σ.patch s key value).stream.get s' = σ.stream.get s' := Heap.get_modify_ne hs

theorem views_patch (h : σ.Wf) {s : ListStreamId} {st : BrokerListStream} (hp : σ.listStream p = some s)
    (hs : σ.stream.get s = some st) (key : CString) (value : Option Json) :
    (σ.patch s key value).views =
      Function.update σ.views p (some (Function.update st.updatesCache.get key value)) := by
  funext q
  have hlist : (σ.patch s key value).listStream q = σ.listStream q := rfl
  by_cases hq : q = p
  · subst hq
    rw [Function.update_self, views, hlist, hp, Option.bind_some, get_patch_self hs, Option.map_some]
    refine congrArg some (funext fun k => ?_)
    rw [get_setMember, Function.update_apply]
  · rw [Function.update_of_ne hq]
    unfold views
    rw [hlist]
    cases hqs : σ.listStream q with
    | none => rfl
    | some s' =>
      have hne : s' ≠ s := by
        rintro rfl
        obtain ⟨st', hst', hn'⟩ := h.streams hqs
        obtain ⟨st'', hst'', hn''⟩ := h.streams hp
        cases hst'.symm.trans hst''
        exact hq (hn'.symm.trans hn'')
      rw [Option.bind_some, Option.bind_some, get_patch_ne hne]

theorem Wf.patch (h : σ.Wf) (s : ListStreamId) (key : CString) (value : Option Json) : (σ.patch s key value).Wf := by
  refine ⟨fun {p s'} hp => ?_, fun hp => h.links hp⟩
  obtain ⟨st, hst, hn⟩ := h.streams (σ := σ) hp
  by_cases hs : s' = s
  · subst hs
    exact ⟨_, get_patch_self hst key value, hn⟩
  · exact ⟨st, (get_patch_ne hs key value).trans hst, hn⟩

/-- A patch of the cache of `p`. -/
theorem Behind.patch (h : Behind E σ) {s : ListStreamId} (hp : σ.listStream p = some s) {value : Option Json}
    (hE : ∀ q l, (q, l) ∈ E → (q, l) ∈ E' ∨ (q, l) = (p, key)) (hv : value = σ.source p key ∨ (p, key) ∈ E') :
    Behind E' (σ.patch s key value) := by
  obtain ⟨st, hst, -⟩ := h.wf.streams hp
  refine ⟨h.wf.patch s key value, ?_⟩
  rw [views_patch h.wf hp hst]
  apply Current.patch h.current _ key value hE hv
  simp [views, hp, hst]

/-- A patch of a cache that no node has any more. -/
theorem Behind.patch_other (h : Behind E σ) {s : ListStreamId} (hs : ∀ p, σ.listStream p ≠ some s)
    (key : CString) (value : Option Json) : Behind E (σ.patch s key value) := by
  have hviews : (σ.patch s key value).views = σ.views := by
    funext q
    unfold views
    rw [show (σ.patch s key value).listStream q = σ.listStream q from rfl]
    cases hqs : σ.listStream q with
    | none => rfl
    | some s' =>
      have hne : s' ≠ s := by
        rintro rfl
        exact hs q hqs
      rw [Option.bind_some, Option.bind_some, get_patch_ne hne]
  refine ⟨h.wf.patch s key value, ?_⟩
  rw [hviews]
  exact h.current

/-- `update_list_child` writes the row of a child, and deletes what has no child any more. -/
theorem Behind.updateListChild (h : Behind E σ)
    (hgone : σ.listStream p ≠ none → σ.node.get (name :: p) = none → (σ.metadata p).get name = none)
    (hE : ∀ q l, (q, l) ∈ E → (q, l) ∈ E' ∨ (q, l) = (p, name)) :
    Behind E' (σ.updateListChild p (σ.listStream p) name) := by
  cases hp : σ.listStream p with
  | none =>
    apply h.shrink
    intro q l hm hm'
    cases (hE q l hm).resolve_left hm'
    exact hp
  | some s =>
    refine h.patch hp hE (.inl ?_)
    rw [source, get_buildListCache, rowAt]
    cases hn : σ.node.get (name :: p) with
    | none => exact (hgone (by simp [hp]) hn).symm
    | some n => rfl

/-- `update_list_attribute` on a node without a child of that name. -/
theorem Behind.updateListAttribute (h : Behind E σ) {value : Option Json}
    (hchild : σ.listStream p ≠ none → σ.node.get (name :: p) = none) (hvalue : (σ.metadata p).get name = value)
    (hE : ∀ q l, (q, l) ∈ E → (q, l) ∈ E' ∨ (q, l) = (p, name)) :
    Behind E' (σ.updateListAttribute (σ.listStream p) name value) := by
  cases hp : σ.listStream p with
  | none =>
    apply h.shrink
    intro q l hm hm'
    cases (hE q l hm).resolve_left hm'
    exact hp
  | some s =>
    refine h.patch hp hE (.inl ?_)
    rw [source, get_buildListCache, rowAt, hchild (by simp [hp]), hvalue]
    rfl

/-! ## Nodes -/

/-- A new node comes without a list stream and without a link. -/
theorem Behind.insert (h : Behind E σ) {n : BrokerNode} (hs : n.listStream = none) (hl : n.link = none) :
    Behind (E ∪ {e | e.2 :: e.1 = q}) { σ with node := σ.node.set q n } := by
  have hget : ∀ p, p ≠ q → (σ.node.set q n).get p = σ.node.get p := fun p hp => AssocMap.get_set_ne hp
  refine h.move (.of_eq rfl (fun p => ?_)) (fun p L hp => ?_) (fun p k hk hp => ?_)
  · by_cases hp : p = q
    · subst hp
      exact .inl (by simp [listStream, hs])
    · exact .inr (by simp [listStream, hget p hp])
  · by_cases hq : p = q
    · subst hq
      simp [linkOf, hl] at hp
    · refine h.wf.links ?_
      simpa [linkOf, hget p hq] using hp
  · have hpq : p ≠ q := by
      rintro rfl
      simp [listStream, hs] at hp
    have hkq : k :: p ≠ q := hk
    refine source_congr ?_ ?_ ?_
    · simp only [topAt, hget _ hkq]
    · simp only [linkDataAt, linkOf, hget _ hkq]
    · simp only [metadata, hget _ hpq]

/-- A new child and its row. -/
theorem Behind.insertChild (h : Behind ∅ σ) {n : BrokerNode} (hs : n.listStream = none) (hl : n.link = none) :
    Behind ∅ (brokerNodeUpdateChild { σ with node := σ.node.set (name :: p) n } p name) := by
  refine (h.insert hs hl).updateListChild (fun _ hn => ?_) (fun q l hm => ?_)
  · simp at hn
  · rcases hm with hm | hm
    · exact hm.elim
    · obtain ⟨rfl, rfl⟩ := List.cons.inj (show l :: q = name :: p from hm)
      exact .inr rfl

theorem Behind.brokerNodeAdd (h : Behind ∅ σ) {m : Metadata} (hτ : σ.brokerNodeAdd p name m = some τ) :
    Behind ∅ τ := by
  simp only [Broker.brokerNodeAdd, Option.bind_eq_bind, Option.bind_eq_some_iff] at hτ
  obtain ⟨node, -, hτ⟩ := hτ
  split at hτ
  · cases hτ
    exact h.insertChild rfl rfl
  · cases hτ

theorem Behind.brokerInitDownstreamNode (h : Behind ∅ σ) (p : Path) (name : CString) :
    Behind ∅ (σ.brokerInitDownstreamNode p name) :=
  h.insertChild rfl rfl

theorem Behind.addAll (h : Behind ∅ σ) (nodes : List (CString × Metadata)) : Behind ∅ (σ.addAll p nodes) := by
  unfold Broker.addAll
  induction nodes generalizing σ with
  | nil => exact h
  | cons e nodes ih =>
    rw [List.foldl_cons]
    apply ih
    cases he : σ.brokerNodeAdd p e.1 e.2 with
    | none => exact h
    | some τ => exact h.brokerNodeAdd he

theorem Behind.onAddNodeInvoked (h : Behind ∅ σ) : Behind ∅ (σ.onAddNodeInvoked p name) := by
  unfold Broker.onAddNodeInvoked
  split
  · exact h
  · exact (h.brokerNodeAdd ‹_›).addAll _

theorem Behind.brokerCreateDynamicDataNode (h : Behind ∅ σ) (names : List CString) :
    Behind ∅ (σ.brokerCreateDynamicDataNode p names) := by
  induction names generalizing σ p with
  | nil => exact h
  | cons name names ih =>
    unfold Broker.brokerCreateDynamicDataNode
    split
    · exact ih h
    · split
      · exact h
      · exact ih ((h.brokerNodeAdd ‹_›).addAll _)

theorem Behind.addTokenInvoke (h : Behind ∅ σ) (m : Metadata) : Behind ∅ (σ.addTokenInvoke name m) := by
  unfold Broker.addTokenInvoke
  split
  · exact h
  · exact (h.brokerNodeAdd ‹_›).addAll _

theorem get_removeNodes (gone : Path → Bool) (p : Path) :
    (σ.removeNodes gone).node.get p = if gone p then none else σ.node.get p := by
  rw [Broker.removeNodes, AssocMap.get_filterKeys]
  cases gone p <;> simp

theorem listStream_removeNodes (gone : Path → Bool) (p : Path) :
    (σ.removeNodes gone).listStream p = if gone p then none else σ.listStream p := by
  rw [listStream, get_removeNodes]
  split <;> rfl

theorem metadata_removeNodes {gone : Path → Bool} (hp : gone p = false) :
    (σ.removeNodes gone).metadata p = σ.metadata p := by
  rw [metadata, get_removeNodes, hp]
  rfl

/-- Nodes leave their maps. Their rows stay in the caches. -/
theorem Behind.removeNodes (h : Behind E σ) (gone : Path → Bool) :
    Behind (E ∪ {e | gone (e.2 :: e.1) = true ∧ gone e.1 = false}) (σ.removeNodes gone) := by
  refine h.move (.of_eq rfl (fun p => ?_)) (fun p L hp => ?_) (fun p k hk hp => ?_)
  · rw [listStream_removeNodes]
    split
    · exact .inl rfl
    · exact .inr rfl
  · apply h.wf.links
    rw [linkOf, get_removeNodes] at hp
    split at hp
    · cases hp
    · exact hp
  · rw [listStream_removeNodes] at hp
    have hgp : gone p = false := by
      cases hg : gone p with
      | false => rfl
      | true => simp [hg] at hp
    have hgk : gone (k :: p) = false := by
      cases hg : gone (k :: p) with
      | false => rfl
      | true => exact absurd ⟨hg, hgp⟩ hk
    refine source_congr ?_ ?_ (by rw [metadata_removeNodes hgp])
    · simp only [topAt, get_removeNodes, hgk, Bool.false_eq_true, if_false]
    · simp only [linkDataAt, linkOf, get_removeNodes, hgk, Bool.false_eq_true, if_false]
      rfl

/-! ## What happens to links -/

/-- There is a downstream node at a path. -/
def isDownstream (σ : Broker) (q : Path) : Bool := (σ.node.get q).any BrokerNode.isDownstream

theorem isDownstream_modNode (f : BrokerNode → BrokerNode) (hf : ∀ n, (f n).isDownstream = n.isDownstream) :
    (σ.modNode p f).isDownstream q = σ.isDownstream q := by
  unfold isDownstream
  rw [get_modNode]
  split
  · rename_i hq
    subst hq
    cases σ.node.get q with
    | none => rfl
    | some n => exact hf n
  · rfl

theorem modDownstream_isDownstream {f : BrokerNode → BrokerNode}
    (hf : ∀ n, n.isDownstream = true → (f n).isDownstream = true) (n : BrokerNode) :
    (n.modDownstream f).isDownstream = n.isDownstream := by
  unfold BrokerNode.modDownstream
  split
  · rfl
  · rename_i hkind
    have hn : n.isDownstream = true := by simp [BrokerNode.isDownstream, hkind]
    rw [hf n hn, hn]

/-- Only a downstream node has a link. -/
theorem linkOf_eq_none (h : σ.isDownstream q = false) : σ.linkOf q = none := by
  unfold isDownstream at h
  unfold linkOf
  cases hq : σ.node.get q with
  | none => rfl
  | some n =>
    rw [hq, Option.any_some] at h
    cases hk : n.kind with
    | regular s => simp [BrokerNode.link, hk]
    | downstream dsId L => simp [BrokerNode.isDownstream, hk] at h

/-- A move that only touches links and the nodes of links: rows keep what they take from the `meta`, and outside of `D`
    they keep their `$linkData`. -/
structure LinkMoves (D : Set Path) (σ τ : Broker) : Prop where
  lists : Lists σ τ
  links : ∀ q L, τ.linkOf q = some L → ∃ link, τ.link.get L = some link ∧ link.home = q
  top : ∀ q, τ.topAt q = σ.topAt q
  down : ∀ q, τ.isDownstream q = σ.isDownstream q
  metadata : ∀ p, τ.listStream p ≠ none → τ.metadata p = σ.metadata p
  linkData : ∀ q, q ∉ D → τ.linkDataAt q = σ.linkDataAt q

theorem LinkMoves.refl (h : σ.Wf) : LinkMoves D σ σ :=
  ⟨.refl σ, fun _ _ hq => h.links hq, fun _ => rfl, fun _ => rfl, fun _ _ => rfl, fun _ _ => rfl⟩

theorem LinkMoves.trans (h : LinkMoves D σ τ) (h' : LinkMoves D τ υ) : LinkMoves D σ υ where
  lists := h.lists.trans h'.lists
  links := h'.links
  top q := (h'.top q).trans (h.top q)
  down q := (h'.down q).trans (h.down q)
  metadata p hp := by
    refine (h'.metadata p hp).trans (h.metadata p ?_)
    rcases h'.lists.listStream p with hn | he
    · exact absurd hn hp
    · exact he ▸ hp
  linkData q hq := (h'.linkData q hq).trans (h.linkData q hq)

theorem LinkMoves.mono {D' : Set Path} (h : LinkMoves D σ τ) (hD : D ⊆ D') : LinkMoves D' σ τ :=
  ⟨h.lists, h.links, h.top, h.down, h.metadata, fun q hq => h.linkData q (fun hm => hq (hD hm))⟩

theorem LinkMoves.wf (h : LinkMoves D σ τ) (hσ : σ.Wf) : τ.Wf :=
  ⟨fun hp => h.lists.streams hσ hp, fun hp => h.links _ _ hp⟩

/-- The rows of `D` may be behind. -/
theorem Behind.linkMoves (h : Behind E σ) (hm : LinkMoves D σ τ) : Behind (E ∪ {e | e.2 :: e.1 ∈ D}) τ := by
  refine h.move hm.lists hm.links (fun p k hk hp => source_congr (hm.top _) (hm.linkData _ hk) ?_)
  rw [hm.metadata p hp]

/-- No row is behind where those of `D` that are listed have the same `$linkData` again. -/
theorem Behind.linkMoves_same (h : Behind E σ) (hm : LinkMoves D σ τ)
    (hsame : ∀ k p, k :: p ∈ D → τ.listStream p ≠ none → τ.linkDataAt (k :: p) = σ.linkDataAt (k :: p)) :
    Behind E τ := by
  have hmove : Behind (E ∪ ∅) τ := by
    refine h.move hm.lists hm.links (fun p k _ hp => source_congr (hm.top _) ?_ (by rw [hm.metadata p hp]))
    by_cases hD : k :: p ∈ D
    · exact hsame k p hD hp
    · exact hm.linkData _ hD
  simpa using hmove

theorem Behind.linkMoves_none (h : Behind E σ) (hm : LinkMoves ∅ σ τ) : Behind E τ :=
  h.linkMoves_same hm (fun _ _ hD => hD.elim)

theorem topAt_modNode (f : BrokerNode → BrokerNode) (hf : ∀ n, listSetTopLevel (f n) = listSetTopLevel n) :
    (σ.modNode p f).topAt q = σ.topAt q := by
  unfold topAt
  rw [get_modNode]
  split
  · rename_i hq
    subst hq
    rw [Option.map_map]
    exact congrArg (fun g => (σ.node.get q).map g) (funext hf)
  · rfl

theorem listSetTopLevel_congr {n n' : BrokerNode} (h : ∀ key ∈ topLevelKeys, n'.metadata.get key = n.metadata.get key) :
    listSetTopLevel n' = listSetTopLevel n := by
  unfold listSetTopLevel
  apply List.foldl_ext
  intro obj key hkey
  rw [h key hkey]

theorem listSetTopLevel_setMember (n : BrokerNode) (hkey : key ∉ topLevelKeys) (value : Option Json) :
    listSetTopLevel { n with metadata := setMember n.metadata key value } = listSetTopLevel n := by
  apply listSetTopLevel_congr
  intro k hk
  rw [get_setMember, if_neg]
  rintro rfl
  exact hkey hk

theorem modDownstream_top {f : BrokerNode → BrokerNode} (hf : ∀ n, listSetTopLevel (f n) = listSetTopLevel n)
    (n : BrokerNode) : listSetTopLevel (n.modDownstream f) = listSetTopLevel n := by
  unfold BrokerNode.modDownstream
  split
  · rfl
  · exact hf n

theorem linkOf_setDownstreamMeta {value : Option Json} :
    (σ.setDownstreamMeta p key value).linkOf q = σ.linkOf q :=
  linkOf_modNode _ (BrokerNode.modDownstream_link (fun _ => rfl))

theorem linkOf_setDsId {dsId : Option CString} : (σ.setDsId p dsId).linkOf q = σ.linkOf q :=
  linkOf_modNode _ (BrokerNode.modDownstream_link (fun _ => rfl))

@[simp] theorem link_setDownstreamMeta {value : Option Json} : (σ.setDownstreamMeta p key value).link = σ.link :=
  modNode_link _

@[simp] theorem link_setDsId {dsId : Option CString} : (σ.setDsId p dsId).link = σ.link := modNode_link _

@[simp] theorem link_setLink {L : Option LinkId} : (σ.setLink p L).link = σ.link := modNode_link _

/-- A node with a list stream is no downstream node. -/
theorem metadata_setDownstreamMeta {value : Option Json}
    (hq : (σ.setDownstreamMeta p key value).listStream q ≠ none) :
    (σ.setDownstreamMeta p key value).metadata q = σ.metadata q := by
  unfold Broker.metadata
  rw [setDownstreamMeta, get_modNode]
  split
  · rename_i hqp
    subst hqp
    cases hn : σ.node.get q with
    | none => rfl
    | some n =>
      rw [setDownstreamMeta, listStream, get_modNode, if_pos rfl, hn] at hq
      rw [Option.map_some, Option.elim_some, Option.elim_some]
      unfold BrokerNode.modDownstream
      cases hk : n.kind with
      | regular s => rfl
      | downstream dsId L =>
        refine absurd ?_ hq
        simp [BrokerNode.modDownstream, BrokerNode.listStream, hk]
  · rfl

/-- A member of a downstream node that its row does not have. -/
theorem setDownstreamMeta_linkMoves (h : σ.Wf) (hkey : key ∉ topLevelKeys) (value : Option Json) :
    LinkMoves ∅ σ (σ.setDownstreamMeta p key value) where
  lists := .of_eq (modNode_stream _) (fun q => .inr (listStream_modNode _
    (BrokerNode.modDownstream_listStream (fun _ hn => hn))))
  links q L hq := by
    rw [linkOf_setDownstreamMeta] at hq
    rw [link_setDownstreamMeta]
    exact h.links hq
  top q := topAt_modNode _ (modDownstream_top (fun n => listSetTopLevel_setMember n hkey value))
  down q := isDownstream_modNode _ (modDownstream_isDownstream (fun _ hn => hn))
  metadata q hq := metadata_setDownstreamMeta hq
  linkData q _ := by
    unfold linkDataAt
    rw [linkOf_setDownstreamMeta, link_setDownstreamMeta]

theorem setDsId_linkMoves (h : σ.Wf) (dsId : Option CString) : LinkMoves ∅ σ (σ.setDsId p dsId) where
  lists := .of_eq (modNode_stream _) (fun q => .inr (listStream_modNode _
    (BrokerNode.modDownstream_listStream (fun _ _ => rfl))))
  links q L hq := by
    rw [linkOf_setDsId] at hq
    rw [link_setDsId]
    exact h.links hq
  top q := topAt_modNode _ (modDownstream_top (fun _ => rfl))
  down q := isDownstream_modNode _ (modDownstream_isDownstream (fun _ _ => rfl))
  metadata q _ := metadata_modNode _ (BrokerNode.modDownstream_metadata (fun _ => rfl))
  linkData q _ := by
    unfold linkDataAt
    rw [linkOf_setDsId, link_setDsId]

theorem linkOf_setLink {L : Option LinkId} (hq : q ≠ p) : (σ.setLink p L).linkOf q = σ.linkOf q := by
  unfold linkOf
  rw [setLink, get_modNode, if_neg hq]

/-- The node gets the link if it is a downstream node. -/
theorem linkOf_setLink_self (L : Option LinkId) :
    (σ.setLink p L).linkOf p = if σ.isDownstream p then L else none := by
  unfold linkOf isDownstream
  rw [setLink, get_modNode, if_pos rfl]
  cases σ.node.get p with
  | none => rfl
  | some n =>
    rw [Option.map_some, Option.bind_some, Option.any_some]
    cases hk : n.kind <;> simp [BrokerNode.modDownstream, BrokerNode.link, BrokerNode.isDownstream, hk]

theorem setLink_linkMoves (h : σ.Wf) {L : Option LinkId}
    (hL : ∀ L', L = some L' → ∃ link, σ.link.get L' = some link ∧ link.home = p) :
    LinkMoves {p} σ (σ.setLink p L) where
  lists := .of_eq (modNode_stream _) (fun q => .inr (listStream_modNode _
    (BrokerNode.modDownstream_listStream (fun _ _ => rfl))))
  links q L' hq := by
    rw [link_setLink]
    by_cases hqp : q = p
    · subst hqp
      rw [linkOf_setLink_self] at hq
      split at hq
      · exact hL L' hq
      · cases hq
    · rw [linkOf_setLink hqp] at hq
      exact h.links hq
  top q := topAt_modNode _ (modDownstream_top (fun _ => rfl))
  down q := isDownstream_modNode _ (modDownstream_isDownstream (fun _ _ => rfl))
  metadata q _ := metadata_modNode _ (BrokerNode.modDownstream_metadata (fun _ => rfl))
  linkData q hq := by
    unfold linkDataAt
    rw [linkOf_setLink hq, setLink, modNode_link]

/-- The links that are there keep their names and their `linkData`. -/
theorem link_linkMoves (h : σ.Wf) (hn : τ.node = σ.node) (hs : τ.stream = σ.stream)
    (hlink : ∀ q L link, σ.linkOf q = some L → σ.link.get L = some link →
      ∃ link', τ.link.get L = some link' ∧ link'.home = link.home ∧ link'.linkData = link.linkData) :
    LinkMoves ∅ σ τ where
  lists := .of_eq hs (fun q => .inr (by rw [listStream, listStream, hn]))
  links q L hq := by
    rw [linkOf, hn] at hq
    obtain ⟨link, hL, hhome⟩ := h.links hq
    obtain ⟨link', hL', hhome', -⟩ := hlink q L link hq hL
    exact ⟨link', hL', hhome'.trans hhome⟩
  top q := by rw [topAt, topAt, hn]
  down q := by rw [isDownstream, isDownstream, hn]
  metadata q _ := by rw [Broker.metadata, Broker.metadata, hn]
  linkData q _ := by
    have hlinkOf : τ.linkOf q = σ.linkOf q := by rw [linkOf, linkOf, hn]
    unfold linkDataAt
    rw [hlinkOf]
    cases hq : σ.linkOf q with
    | none => rfl
    | some L =>
      obtain ⟨link, hL, -⟩ := h.links hq
      obtain ⟨link', hL', -, hd⟩ := hlink q L link hq hL
      simp [hL, hL', hd]

/-- Another record of a link that only differs in its table or its dsId. -/
theorem modLink_linkMoves (h : σ.Wf) (L : LinkId) (f : RemoteDSLink → RemoteDSLink)
    (hf : ∀ link, (f link).home = link.home ∧ (f link).linkData = link.linkData) :
    LinkMoves ∅ σ { σ with link := σ.link.modify L f } := by
  refine link_linkMoves h rfl rfl (fun q L' link _ hL' => ?_)
  by_cases hL : L' = L
  · subst hL
    exact ⟨f link, by simp [hL'], hf link⟩
  · exact ⟨link, by rw [Heap.get_modify_ne hL, hL'], rfl, rfl⟩

theorem putLink_linkMoves (h : σ.Wf) {L : LinkId} {link : RemoteDSLink} (link' : RemoteDSLink)
    (hL : σ.link.get L = some link) (hhome : link'.home = link.home) (hd : link'.linkData = link.linkData) :
    LinkMoves ∅ σ { σ with link := σ.link.put L link' } := by
  refine link_linkMoves h rfl rfl (fun q L' link'' _ hL' => ?_)
  by_cases he : L' = L
  · subst he
    cases hL'.symm.trans hL
    exact ⟨link', Heap.get_put_self hL, hhome, hd⟩
  · exact ⟨link'', (Heap.get_put_ne he).trans hL', rfl, rfl⟩

/-- A link no node has is freed. -/
theorem freeLink_linkMoves (h : σ.Wf) {L : LinkId} (hL : ∀ q, σ.linkOf q ≠ some L) :
    LinkMoves ∅ σ { σ with link := σ.link.free L } := by
  refine link_linkMoves h rfl rfl (fun q L' link hq hL' => ⟨link, ?_, rfl, rfl⟩)
  rw [Heap.get_free_ne, hL']
  rintro rfl
  exact hL q hq

theorem allocLink_linkMoves (h : σ.Wf) (link : RemoteDSLink) :
    LinkMoves ∅ σ { σ with link := σ.link.alloc link } :=
  link_linkMoves h rfl rfl (fun _ _ link' _ hL' => ⟨link', Heap.get_alloc_of_get hL', rfl, rfl⟩)

/-! ## List requests -/

/-- The list streams of nodes change in nothing but their requesters. -/
theorem stream_linkMoves (h : σ.Wf) (hn : τ.node = σ.node) (hl : τ.link = σ.link)
    (hs : ∀ p s st, σ.listStream p = some s → σ.stream.get s = some st →
      ∃ st', τ.stream.get s = some st' ∧ st'.node = st.node ∧ st'.updatesCache = st.updatesCache) :
    LinkMoves ∅ σ τ where
  lists := ⟨fun p => .inr (by rw [listStream, listStream, hn]), fun p s hp st hst => by
    rw [listStream, hn] at hp
    exact hs p s st hp hst⟩
  links q L hq := by
    rw [linkOf, hn] at hq
    rw [hl]
    exact h.links hq
  top q := by rw [topAt, topAt, hn]
  down q := by rw [isDownstream, isDownstream, hn]
  metadata q _ := by rw [Broker.metadata, Broker.metadata, hn]
  linkData q _ := by
    unfold linkDataAt linkOf
    rw [hn, hl]

/-- A list stream with other requesters. -/
theorem putStream_linkMoves (h : σ.Wf) {s : ListStreamId} {st : BrokerListStream} (st' : BrokerListStream)
    (hs : σ.stream.get s = some st) (hn : st'.node = st.node) (hc : st'.updatesCache = st.updatesCache) :
    LinkMoves ∅ σ { σ with stream := σ.stream.put s st' } := by
  refine stream_linkMoves h rfl rfl (fun p s' st'' _ hst => ?_)
  by_cases he : s' = s
  · subst he
    cases hst.symm.trans hs
    exact ⟨st', Heap.get_put_self hst, hn, hc⟩
  · exact ⟨st'', (Heap.get_put_ne he).trans hst, rfl, rfl⟩

theorem listStream_setListStream_none (q : Path) :
    (σ.setListStream p none).listStream q = if q = p then none else σ.listStream q := by
  unfold listStream
  rw [setListStream, get_modNode]
  split
  · cases σ.node.get p with
    | none => rfl
    | some n =>
      rw [Option.map_some, Option.bind_some]
      cases hk : n.kind <;> simp [BrokerNode.setListStream, BrokerNode.listStream, hk]
  · rfl

theorem setListStream_linkMoves (h : σ.Wf) : LinkMoves ∅ σ (σ.setListStream p none) where
  lists := .of_eq (modNode_stream _) (fun q => by
    rw [listStream_setListStream_none]
    split
    · exact .inl rfl
    · exact .inr rfl)
  links q L hq := by
    rw [setListStream, modNode_link]
    exact h.links ((linkOf_modNode _ (fun n => BrokerNode.setListStream_link n none)).symm.trans hq)
  top q := topAt_modNode _ (fun n => listSetTopLevel_congr (fun _ _ => by rw [BrokerNode.setListStream_metadata]))
  down q := isDownstream_modNode _ (fun n => BrokerNode.setListStream_isDownstream n none)
  metadata q _ := metadata_modNode _ (fun n => BrokerNode.setListStream_metadata n none)
  linkData q _ := by
    unfold linkDataAt
    rw [setListStream, modNode_link, linkOf_modNode _ (fun n => BrokerNode.setListStream_link n none)]

/-- A request on a stream ends. -/
theorem requesterStreamClosed_linkMoves (h : σ.Wf) {s : ListStreamId} {L : LinkId}
    (hτ : σ.requesterStreamClosed s L = some τ) : LinkMoves ∅ σ τ := by
  simp only [requesterStreamClosed, Option.bind_eq_bind, Option.bind_eq_some_iff] at hτ
  obtain ⟨stream, hstream, link, -, dsId, -, hτ⟩ := hτ
  split at hτ
  · cases hτ
    have hdrop : LinkMoves ∅ σ (σ.dropListStream s stream.node) := by
      unfold dropListStream
      split
      · exact setListStream_linkMoves h
      · exact .refl h
    -- no node has the stream now
    have hno : ∀ p, (σ.dropListStream s stream.node).listStream p ≠ some s := by
      intro p hp
      have hold := hdrop.lists.old hp
      obtain ⟨st, hst, hnode⟩ := h.streams hold
      cases hst.symm.trans hstream
      unfold dropListStream at hp
      rw [if_pos (hnode ▸ hold), listStream_setListStream_none, if_pos hnode.symm] at hp
      cases hp
    apply hdrop.trans
    refine stream_linkMoves (hdrop.wf h) rfl rfl (fun p s' st hp hst => ⟨st, ?_, rfl, rfl⟩)
    have hs : (σ.dropListStream s stream.node).stream = σ.stream := by
      unfold dropListStream
      split
      · exact modNode_stream _
      · rfl
    rw [hs] at hst
    show (σ.stream.free s).get s' = some st
    rw [Heap.get_free_ne, hst]
    rintro rfl
    exact hno p hp
  · cases hτ
    exact putStream_linkMoves h _ hstream rfl rfl

/-- The link of a requester notes the request as well. -/
theorem brokerAddRequesterListStream_linkMoves (h : σ.Wf) {s : ListStreamId} {L : LinkId} {rid : Nat}
    (hτ : σ.brokerAddRequesterListStream L s rid = some τ) : LinkMoves ∅ σ τ := by
  simp only [brokerAddRequesterListStream, Option.bind_eq_bind, Option.bind_eq_some_iff, Option.some.injEq] at hτ
  obtain ⟨link, hlink, dsId, -, stream, hstream, rfl⟩ := hτ
  have hs := putStream_linkMoves h { stream with
    requesterLinks := (stream.requesterLinks.erase dsId).set dsId (L, rid) } hstream rfl rfl
  exact hs.trans (putLink_linkMoves (hs.wf h) _ hlink rfl rfl)

/-- A regular node gets a new list stream, with the cache that is built for it. -/
theorem Behind.openListStream (h : Behind ∅ σ) {node : BrokerNode} {old : Option ListStreamId}
    (hnode : σ.node.get p = some node) (hkind : node.kind = .regular old) :
    Behind ∅ (Broker.setListStream { σ with stream := σ.stream.alloc ⟨p, .empty, σ.buildListCache p⟩ } p
      (some σ.stream.next)) := by
  generalize hτ : Broker.setListStream { σ with stream := σ.stream.alloc ⟨p, .empty, σ.buildListCache p⟩ } p
    (some σ.stream.next) = τ
  have hget : ∀ q, τ.node.get q = if q = p then some (node.setListStream (some σ.stream.next)) else σ.node.get q := by
    intro q
    rw [← hτ, setListStream, get_modNode, hnode]
    rfl
  have hstream : τ.stream = σ.stream.alloc ⟨p, .empty, σ.buildListCache p⟩ := by
    rw [← hτ]
    exact modNode_stream _
  have hlink : τ.link = σ.link := by
    rw [← hτ]
    exact modNode_link _
  have hlist : ∀ q, τ.listStream q = if q = p then some σ.stream.next else σ.listStream q := by
    intro q
    rw [listStream, hget]
    split
    · rw [Option.bind_some, BrokerNode.listStream, BrokerNode.setListStream, hkind]
    · rfl
  have hlinkOf : ∀ q, τ.linkOf q = σ.linkOf q := by
    intro q
    rw [← hτ]
    exact linkOf_modNode _ (fun n => BrokerNode.setListStream_link n _)
  have htop : ∀ q, τ.topAt q = σ.topAt q := by
    intro q
    rw [← hτ]
    exact topAt_modNode _ (fun n => listSetTopLevel_congr (fun _ _ => by rw [BrokerNode.setListStream_metadata]))
  have hmeta : ∀ q, τ.metadata q = σ.metadata q := by
    intro q
    rw [← hτ]
    exact metadata_modNode _ (fun n => BrokerNode.setListStream_metadata n _)
  have hsource : τ.source = σ.source := by
    funext q k
    exact source_congr (htop _) (by rw [linkDataAt, linkDataAt, hlinkOf, hlink]) (by rw [hmeta])
  have hviews : τ.views = Function.update σ.views p (some (σ.source p)) := by
    funext q
    rw [Function.update_apply]
    unfold views
    rw [hlist, hstream]
    split
    · rw [Option.bind_some, Heap.get_alloc_next]
      rfl
    · cases hq : σ.listStream q with
      | none => rfl
      | some s =>
        obtain ⟨st, hst, -⟩ := h.wf.streams hq
        rw [Option.bind_some, Option.bind_some, Heap.get_alloc_of_get hst, hst]
  refine ⟨⟨fun {q s} hq => ?_, fun {q L} hq => ?_⟩, ?_⟩
  · rw [hlist] at hq
    rw [hstream]
    split at hq
    · rename_i hqp
      cases hq
      exact ⟨_, Heap.get_alloc_next _ _, hqp.symm⟩
    · obtain ⟨st, hst, hn⟩ := h.wf.streams hq
      exact ⟨st, Heap.get_alloc_of_get hst, hn⟩
  · rw [hlinkOf] at hq
    rw [hlink]
    exact h.wf.links hq
  · rw [hviews, hsource]
    exact h.current.open p

/-- A list request opens the stream of its node, or joins it. -/
theorem Behind.brokerListSelf (h : Behind ∅ σ) {L : LinkId} {rid : Nat} (hτ : σ.brokerListSelf L p rid = some τ) :
    Behind ∅ τ := by
  simp only [Broker.brokerListSelf, Option.bind_eq_bind, Option.bind_eq_some_iff] at hτ
  obtain ⟨node, hnode, hτ⟩ := hτ
  split at hτ
  · cases hτ
  · exact h.linkMoves_none (brokerAddRequesterListStream_linkMoves h.wf hτ)
  · rename_i hkind
    have hopen := h.openListStream hnode hkind
    exact hopen.linkMoves_none (brokerAddRequesterListStream_linkMoves hopen.wf hτ)

theorem Behind.brokerMsgHandleClose (h : Behind E σ) {L : LinkId} {rid : Nat}
    (hτ : σ.brokerMsgHandleClose L rid = some τ) : Behind E τ := by
  simp only [Broker.brokerMsgHandleClose, Option.bind_eq_bind, Option.bind_eq_some_iff] at hτ
  obtain ⟨link, hlink, hτ⟩ := hτ
  split at hτ
  · cases hτ
    exact h
  · have hput := putLink_linkMoves h.wf { link with
      requesterStreams := link.requesterStreams.erase rid } hlink rfl rfl
    exact h.linkMoves_none (hput.trans (requesterStreamClosed_linkMoves (hput.wf h.wf) hτ))

theorem fileOther_linkMoves (h : σ.Wf) (L : LinkId) (rid : Nat) : LinkMoves ∅ σ (σ.fileOther L rid) :=
  modLink_linkMoves h L _ (fun _ => ⟨rfl, rfl⟩)

end Broker

end DSLink.LocalList
