import DSLink.Broker.Methodless
import DSLink.Broker.Placing
import DSLink.Lib.Foreach

/-!
# `Broker.NodeFree` — freeing a downstream node

`broker_node_free` walks three maps of a downstream node. Two of the bodies take the entry that the loop stands on out
of the map. Subscriptions and list streams are states of their own here, so a node is freed in a pair of them.

## Contents
- `Views`, `freeMaps`: the three loops.
- `freeable_iff`: which list streams can be freed.
- `node_free_releases`: when the loops come to their end.
-/

namespace DSLink

/-- The subscriptions of a broker, and its links, list streams and invokes. -/
structure Views (J : Type) where
  broker : Broker J
  registry : Registry

namespace Views

variable {J : Type}

def reqSubPaths (d : DownId) (S : Views J) : Option (AssocMap CString SubId) :=
  (S.broker.dnode.get d).map DownstreamNode.reqSubPaths

def respSubStreams (d : DownId) (S : Views J) : Option (AssocMap CString StreamId) :=
  (S.broker.dnode.get d).map DownstreamNode.respSubStreams

def listStreams (d : DownId) (S : Views J) : Option (AssocMap CString StreamId) :=
  (S.registry.dnode.get d).map Registry.DownstreamNode.listStreams

def brokerFreeSubRequester (S : Views J) (s : SubId) : Option (Views J) :=
  (S.broker.brokerFreeSubRequester s).map (fun broker => { S with broker })

/-- `broker_stream_free` for a `BrokerSubStream`. -/
def freeSubStream (S : Views J) (st : StreamId) : Option (Views J) :=
  (S.broker.brokerStreamFree st).map (fun broker => { S with broker })

/-- `broker_stream_free` for a `BrokerListStream`. -/
def freeListStream (S : Views J) (s : StreamId) : Option (Views J) :=
  (S.registry.brokerStreamFree s).map (fun registry => { S with registry })

/-- The three loops of `broker_node_free`. -/
def freeMaps (S : Views J) (d : DownId) : Option (Views J) := do
  let S ← foreach (reqSubPaths d) brokerFreeSubRequester S
  let S ← foreach (respSubStreams d) freeSubStream S
  foreach (listStreams d) freeListStream S

/-- `broker_node_free` for a downstream node. -/
def brokerNodeFree (S : Views J) (d : DownId) : Option (Views J) := do
  let S ← S.freeMaps d
  let node ← S.broker.dnode.get d
  let broker ← S.broker.leaveParent node.parent node.name
  some ⟨{ broker with dnode := broker.dnode.free d }, { S.registry with dnode := S.registry.dnode.free d }⟩

end Views

/-! ## The loops over subscriptions -/

section

variable {J : Type} {S : Views J} {d : DownId} {node : DownstreamNode J}

/-- `broker_free_sub_requester` takes the entry out. -/
theorem freeSubs_none (hpaths : S.broker.indexes.PathsOk) (hd : S.broker.dnode.get d = some node)
    (hne : node.reqSubPaths.size ≠ 0) :
    foreach (Views.reqSubPaths d) Views.brokerFreeSubRequester S = none := by
  have hmap : Views.reqSubPaths d S = some node.reqSubPaths := by
    rw [Views.reqSubPaths, hd]
    rfl
  refine foreach_removed hmap hne ?_
  intro p s S' m' hp hrun hm'
  obtain ⟨broker, hfree, rfl⟩ := Option.map_eq_some_iff.mp hrun
  obtain ⟨node', hnode', rfl⟩ := Option.map_eq_some_iff.mp hm'
  obtain ⟨req, hs⟩ := Broker.brokerFreeSubRequester_live hfree
  obtain ⟨k, hk, hpath, hreq⟩ := hpaths.live d _ p s (Broker.indexes_node hd) hp
  obtain rfl := Option.some.inj ((Broker.indexes_sub hs).symm.trans hk)
  have hindex := congrArg (fun I => Indexes.node I d) (Broker.brokerFreeSubRequester_indexes hfree hs)
  have hpath : req.path = p := hpath
  have hreq : req.reqNode = d := hreq
  simp only [Indexes.remove, Indexes.setSub_node, Indexes.modNode_node, hreq, if_true, Broker.indexes_node hnode',
    Broker.indexes_node hd, hpath] at hindex
  obtain ⟨hpaths', -⟩ := NodeIndex.mk.inj (Option.some.inj hindex)
  rw [hpaths']
  exact AssocMap.get_erase_self _ _

/-- So does `broker_stream_free`. -/
theorem freeSubStreams_none (hseats : S.broker.SeatsOk) (hd : S.broker.dnode.get d = some node)
    (hne : node.respSubStreams.size ≠ 0) : foreach (Views.respSubStreams d) Views.freeSubStream S = none := by
  have hmap : Views.respSubStreams d S = some node.respSubStreams := by
    rw [Views.respSubStreams, hd]
    rfl
  refine foreach_removed hmap hne ?_
  intro p st S' m' hp hrun hm'
  obtain ⟨broker, hfree, rfl⟩ := Option.map_eq_some_iff.mp hrun
  obtain ⟨node', hnode', rfl⟩ := Option.map_eq_some_iff.mp hm'
  obtain ⟨x, hx, hresp, hremote⟩ := hseats.streams d node.respSubStreams.get p st (by simp [Broker.seats, hd]) hp
  obtain ⟨stream, hst, rfl⟩ := Broker.seats_stream_eq_some.mp hx
  have hresp : stream.respNode = .downstream d := hresp
  have hremote : stream.remotePath = some p := hremote
  simp only [Broker.brokerStreamFree, hst, Option.bind_eq_bind, Option.bind_some, hresp,
    Option.bind_eq_some_iff] at hfree
  obtain ⟨-, -, τ, -, υ, -, hfree⟩ := hfree
  obtain rfl := Option.some.inj hfree
  have hnode' : (υ.dnode.modify d _).get d = some node' := hnode'
  rw [Heap.get_modify_self] at hnode'
  obtain ⟨node0, -, rfl⟩ := Option.map_eq_some_iff.mp hnode'
  show (node0.respSubStreams.erase (stream.remotePath.getD [])).get p = none
  rw [hremote]
  exact AssocMap.get_erase_self _ _

end

/-! ## The loop over list streams -/

namespace Registry

variable {σ σ' τ : Registry} {L : LinkId} {rid : Nat} {s : StreamId}

/-- A live list stream whose requesters have not been freed. -/
def Freeable (σ : Registry) (s : StreamId) : Prop :=
  ∃ st, σ.stream.get s = some (.list st) ∧ ∀ k ∈ st.requesterLinks.values, σ.link.get k.1 ≠ none

/-- The same links are there, with the same nodes. -/
structure SameLinks (σ σ' : Registry) : Prop where
  link : ∀ L, σ'.link.get L = none ↔ σ.link.get L = none
  dnode : σ'.dnode = σ.dnode

theorem SameLinks.refl (σ : Registry) : SameLinks σ σ := ⟨fun _ => Iff.rfl, rfl⟩

theorem SameLinks.trans (h : SameLinks σ τ) (h' : SameLinks τ σ') : SameLinks σ σ' :=
  ⟨fun L => (h'.link L).trans (h.link L), h'.dnode.trans h.dnode⟩

theorem sameLinks_modLink (f : RemoteDSLink → RemoteDSLink) : SameLinks σ (σ.modLink L f) := by
  refine ⟨fun M => ?_, rfl⟩
  show (σ.link.modify L f).get M = none ↔ _
  rw [Heap.get_modify]
  split
  · rename_i he
    rw [he, Option.map_eq_none_iff]
  · rfl

theorem removeRequester_sameLinks (hs : σ.removeRequester L rid = some σ') : SameLinks σ σ' := by
  obtain ⟨link, -, ⟨-, rfl⟩ | ⟨-, rfl⟩⟩ := removeRequester_cases hs
  · exact .refl _
  · exact sameLinks_modLink _

/-- Entries of requesters are removed if and only if the requesters are there. -/
theorem removeRequesters_iff (keys : List Key) (σ : Registry) :
    (∃ σ', keys.foldlM (fun σ p => σ.removeRequester p.1 p.2) σ = some σ') ↔ ∀ k ∈ keys, σ.link.get k.1 ≠ none := by
  induction keys generalizing σ with
  | nil => exact iff_of_true ⟨σ, rfl⟩ (fun _ hk => absurd hk List.not_mem_nil)
  | cons k keys ih =>
    simp only [List.foldlM_cons, Option.bind_eq_bind, List.forall_mem_cons, Option.bind_eq_some_iff]
    constructor
    · rintro ⟨σ', τ, hτ, hs⟩
      have hsame := removeRequester_sameLinks hτ
      obtain ⟨link, hlink, -⟩ := removeRequester_cases hτ
      refine ⟨by simp [hlink], fun k' hk' => ?_⟩
      exact fun hgone => (ih τ).mp ⟨σ', hs⟩ k' hk' ((hsame.link _).mpr hgone)
    · rintro ⟨hk, hkeys⟩
      obtain ⟨link, hlink⟩ := Option.ne_none_iff_exists'.mp hk
      obtain ⟨τ, hτ⟩ : ∃ τ, σ.removeRequester k.1 k.2 = some τ := by simp [removeRequester, hlink]
      have hsame := removeRequester_sameLinks hτ
      obtain ⟨σ', hs⟩ := (ih τ).mpr (fun k' hk' hgone => hkeys k' hk' ((hsame.link _).mp hgone))
      exact ⟨σ', τ, hτ, hs⟩

theorem removeRequesters_same {keys : List Key} (hs : keys.foldlM (fun σ p => σ.removeRequester p.1 p.2) σ = some σ') :
    SameLinks σ σ' ∧ σ'.stream = σ.stream ∧ σ'.freed = σ.freed := by
  refine foldlM_invariant (fun τ => SameLinks σ τ ∧ τ.stream = σ.stream ∧ τ.freed = σ.freed) ?_ hs ⟨.refl _, rfl, rfl⟩
  rintro τ k - υ ⟨hlinks, hstream, hfreed⟩ hround
  obtain ⟨link, -, ⟨-, rfl⟩ | ⟨-, rfl⟩⟩ := removeRequester_cases hround
  · exact ⟨hlinks, hstream, hfreed⟩
  · exact ⟨hlinks.trans (sameLinks_modLink _), hstream, hfreed⟩

/-- A list stream of a node whose link, if any, is there. -/
structure At (σ : Registry) (s : StreamId) (d : DownId) (st : BrokerListStream) : Prop where
  stream : σ.stream.get s = some (.list st)
  node : st.node = .downstream d
  live : ∃ own, σ.dnode.get d = some own ∧ ∀ L, own.link = some L → σ.link.get L ≠ none

variable {d : DownId} {st : BrokerListStream}

/-- What is left of a list stream that is freed. -/
theorem freeList_spec (h : σ.At s d st) (hs : σ.brokerStreamFree s = some σ') : SameLinks σ σ' ∧
    σ'.stream = σ.stream.free s ∧ σ'.freed = st.requesterLinks.entries :: σ.freed := by
  simp only [brokerStreamFree, h.stream, Option.bind_eq_bind, Option.bind_some, Option.bind_eq_some_iff] at hs
  obtain ⟨τ, hτ, υ, hυ, hs⟩ := hs
  obtain rfl := Option.some.inj hs
  obtain ⟨hlinks, hstream, hfreed⟩ := removeRequesters_same hτ
  have hdrop : SameLinks τ υ ∧ υ.stream = τ.stream ∧ υ.freed = τ.freed := by
    simp only [dropResponder, h.node, dropListResponder, Option.bind_eq_bind, Option.bind_eq_some_iff] at hυ
    obtain ⟨own, -, hυ⟩ := hυ
    split at hυ
    · obtain ⟨link, -, ⟨-, rfl⟩ | ⟨-, rfl⟩⟩ := removeResponder_cases hυ
      · exact ⟨.refl _, rfl, rfl⟩
      · exact ⟨sameLinks_modLink _, rfl, rfl⟩
    · cases hυ
      exact ⟨.refl _, rfl, rfl⟩
  obtain ⟨hlinks', hstream', hfreed'⟩ := hdrop
  refine ⟨⟨fun L => ?_, ?_⟩, ?_, ?_⟩
  · exact (hlinks'.link L).trans (hlinks.link L)
  · exact hlinks'.dnode.trans hlinks.dnode
  · show υ.stream.free s = _
    rw [hstream', hstream]
  · show st.requesterLinks.entries :: υ.freed = _
    rw [hfreed', hfreed]

/-- It is freed if and only if its requesters are there. -/
theorem freeList_iff (h : σ.At s d st) :
    (∃ σ', σ.brokerStreamFree s = some σ') ↔ ∀ k ∈ st.requesterLinks.values, σ.link.get k.1 ≠ none := by
  rw [← removeRequesters_iff]
  simp only [brokerStreamFree, h.stream, Option.bind_eq_bind, Option.bind_some, Option.bind_eq_some_iff]
  constructor
  · rintro ⟨σ', τ, hτ, -⟩
    exact ⟨τ, hτ⟩
  · rintro ⟨τ, hτ⟩
    obtain ⟨hlinks, -, -⟩ := removeRequesters_same hτ
    obtain ⟨own, hd, hlive⟩ := h.live
    obtain ⟨υ, hυ⟩ : ∃ υ, τ.dropResponder (.list st) = some υ := by
      simp only [dropResponder, h.node, dropListResponder, hlinks.dnode, hd, Option.bind_eq_bind, Option.bind_some]
      split
      · rename_i L hL
        obtain ⟨link, hlink⟩ := Option.ne_none_iff_exists'.mp (mt (hlinks.link L).mp (hlive L hL))
        simp [removeResponder, hlink]
      · exact ⟨τ, rfl⟩
    exact ⟨_, τ, hτ, υ, hυ, rfl⟩

/-- A node with the list streams `l`, whose link, if any, is there. -/
structure Lists (σ : Registry) (d : DownId) (l : List StreamId) : Prop where
  live : ∃ own, σ.dnode.get d = some own ∧ ∀ L, own.link = some L → σ.link.get L ≠ none
  node : ∀ s ∈ l, ∀ x, σ.stream.get s = some x → ∃ st, x = .list st ∧ st.node = .downstream d

theorem Lists.listAt {l : List StreamId} {x : BrokerStream} (h : σ.Lists d l) (hs : s ∈ l) (hx : σ.stream.get s = some x) :
    ∃ st, σ.At s d st := by
  obtain ⟨st, rfl, hnode⟩ := h.node s hs x hx
  exact ⟨st, hx, hnode, h.live⟩

/-- Freeing one list stream leaves the others. -/
theorem Lists.freed {l : List StreamId} (h : σ.Lists d (s :: l)) (hlinks : SameLinks σ σ')
    (hstream : σ'.stream = σ.stream.free s) : σ'.Lists d l where
  live := by
    obtain ⟨own, hd, hlive⟩ := h.live
    exact ⟨own, by rw [hlinks.dnode]; exact hd, fun L hL hgone => hlive L hL ((hlinks.link L).mp hgone)⟩
  node := by
    intro t ht x hx
    rw [hstream] at hx
    exact h.node t (List.mem_cons_of_mem _ ht) x (Heap.get_free_eq_some.mp hx).2

/-- Every stream of a list is freed and counted. -/
theorem freeLists_spec {l : List StreamId} (h : σ.Lists d l) (hs : l.foldlM brokerStreamFree σ = some σ') :
    (∀ s ∈ l, σ.Freeable s ∧ σ'.stream.get s = none) ∧ (∀ s, σ.stream.get s = none → σ'.stream.get s = none) ∧
      σ'.freed.length = σ.freed.length + l.length := by
  induction l generalizing σ with
  | nil =>
    cases hs
    exact ⟨fun s hs => absurd hs List.not_mem_nil, fun _ h => h, rfl⟩
  | cons s l ih =>
    simp only [List.foldlM_cons, Option.bind_eq_bind, Option.bind_eq_some_iff] at hs
    obtain ⟨τ, hτ, hs⟩ := hs
    obtain ⟨x, hx⟩ : ∃ x, σ.stream.get s = some x := by
      simp only [brokerStreamFree, Option.bind_eq_bind, Option.bind_eq_some_iff] at hτ
      obtain ⟨x, hx, -⟩ := hτ
      exact ⟨x, hx⟩
    obtain ⟨st, hat⟩ := h.listAt List.mem_cons_self hx
    obtain ⟨hlinks, hstream, hfreed⟩ := freeList_spec hat hτ
    obtain ⟨hall, hgone, hlength⟩ := ih (h.freed hlinks hstream) hs
    have hsgone : τ.stream.get s = none := by
      rw [hstream]
      exact Heap.get_free_self _ _
    refine ⟨?_, ?_, ?_⟩
    · intro t ht
      rcases List.mem_cons.mp ht with rfl | ht
      · exact ⟨⟨st, hat.stream, (freeList_iff hat).mp ⟨τ, hτ⟩⟩, hgone _ hsgone⟩
      · obtain ⟨⟨st', hst', hlive⟩, hdead⟩ := hall t ht
        rw [hstream] at hst'
        refine ⟨⟨st', (Heap.get_free_eq_some.mp hst').2, fun k hk hnone => ?_⟩, hdead⟩
        exact hlive k hk ((hlinks.link _).mpr hnone)
    · intro t ht
      refine hgone t ?_
      rw [hstream, Heap.get_free]
      split
      · rfl
      · exact ht
    · rw [hlength, hfreed, List.length_cons, List.length_cons]
      omega

/-- Different list streams can be freed one after the other. -/
theorem freeLists_total {l : List StreamId} (h : σ.Lists d l) (hnodup : l.Nodup) (hfree : ∀ s ∈ l, σ.Freeable s) :
    ∃ σ', l.foldlM brokerStreamFree σ = some σ' := by
  induction l generalizing σ with
  | nil => exact ⟨σ, rfl⟩
  | cons s l ih =>
    obtain ⟨hnew, hnodup⟩ := List.nodup_cons.mp hnodup
    obtain ⟨st0, hst0, hlive0⟩ := hfree s List.mem_cons_self
    obtain ⟨st, hat⟩ := h.listAt List.mem_cons_self hst0
    cases hst0.symm.trans hat.stream
    obtain ⟨τ, hτ⟩ := (freeList_iff hat).mpr hlive0
    obtain ⟨hlinks, hstream, -⟩ := freeList_spec hat hτ
    have hrest : ∀ t ∈ l, τ.Freeable t := by
      intro t ht
      obtain ⟨st', hst', hlive'⟩ := hfree t (List.mem_cons_of_mem _ ht)
      refine ⟨st', ?_, fun k hk hgone => hlive' k hk ((hlinks.link _).mp hgone)⟩
      rw [hstream, Heap.get_free_ne (by rintro rfl; exact hnew ht)]
      exact hst'
    obtain ⟨σ', hs⟩ := ih (h.freed hlinks hstream) hnodup hrest
    refine ⟨σ', ?_⟩
    rw [List.foldlM_cons, hτ]
    exact hs

/-- The list streams of a node in a reachable state. -/
theorem Seated.lists (h : σ.Seated) {own : DownstreamNode} (hd : σ.dnode.get d = some own) :
    σ.Lists d own.listStreams.values := by
  refine ⟨⟨own, hd, fun L hL => ?_⟩, ?_⟩
  · obtain ⟨link, hlink, -⟩ := h.link d L (by rw [hd]; exact hL)
    simp [hlink]
  · intro s hs x hx
    obtain ⟨p, hp⟩ := AssocMap.mem_values.mp hs
    have howner := (h.owns d p s (by simp [ownTable, hd, hp])).2 x hx
    cases x with
    | invoke st => cases howner
    | list st => exact ⟨st, rfl, congrArg Prod.fst (Option.some.inj howner)⟩

theorem Seated.nodup (h : σ.Seated) {own : DownstreamNode} (hd : σ.dnode.get d = some own)
    (hlive : ∀ s ∈ own.listStreams.values, σ.stream.get s ≠ none) : own.listStreams.values.Nodup := by
  refine AssocMap.nodup_values (fun p q s hp hq => ?_)
  obtain ⟨x, hx⟩ := Option.ne_none_iff_exists'.mp (hlive s (AssocMap.mem_values.mpr ⟨p, hp⟩))
  have hown := (h.owns d p s (by simp [ownTable, hd, hp])).2 x hx
  have hown' := (h.owns d q s (by simp [ownTable, hd, hq])).2 x hx
  exact congrArg Prod.snd (Option.some.inj (hown.symm.trans hown'))

theorem reach_seated {ok : Registry → Event → Prop} (h : Reach step ok (· = empty) σ) : σ.Seated := by
  have hsound : ∃ last, σ.Sound last := by
    refine Reach.invariant (fun σ => ∃ last, σ.Sound last) ?_ ?_ h
    · rintro σ rfl
      exact ⟨fun _ => none, empty_sound _⟩
    · rintro σ e σ' ⟨last, hσ⟩ - hs
      exact ⟨_, step_sound hσ hs⟩
  obtain ⟨last, hσ⟩ := hsound
  exact hσ.seated

end Registry

/-! ## A node goes -/

namespace Views

variable {J : Type} {S S' : Views J} {d : DownId}

/-- The loop over list streams is one over their list. -/
theorem freeListStreams_eq {own : Registry.DownstreamNode} (hd : S.registry.dnode.get d = some own) :
    foreach (listStreams d) freeListStream S =
      (own.listStreams.values.foldlM Registry.brokerStreamFree S.registry).map (fun registry => { S with registry }) := by
  have hmap : listStreams d S = some own.listStreams := by
    rw [listStreams, hd]
    rfl
  rw [foreach_eq_foldlM hmap]
  · generalize own.listStreams.values = l
    clear hd hmap
    induction l generalizing S with
    | nil => rfl
    | cons s l ih =>
      simp only [List.foldlM_cons, freeListStream, Option.bind_eq_bind]
      cases S.registry.brokerStreamFree s with
      | none => rfl
      | some registry => exact ih (S := { S with registry })
  · intro T T' s _ hT hrun
    obtain ⟨registry, hfree, rfl⟩ := Option.map_eq_some_iff.mp hrun
    rw [listStreams] at hT ⊢
    rw [(Registry.brokerStreamFree_nodes hfree).2]
    exact hT

/-- The loops come to their end, and what the maps of the node have was there before and is not there any more. -/
def Releases (S : Views J) (d : DownId) : Prop := ∃ S', S.freeMaps d = some S' ∧
  (∀ node ∈ S.broker.dnode.get d,
    (∀ s ∈ node.reqSubPaths.values, S.broker.sub.get s ≠ none ∧ S'.broker.sub.get s = none) ∧
    ∀ st ∈ node.respSubStreams.values, S.broker.stream.get st ≠ none ∧ S'.broker.stream.get st = none) ∧
  ∀ own ∈ S.registry.dnode.get d,
    (∀ s ∈ own.listStreams.values, S.registry.stream.get s ≠ none ∧ S'.registry.stream.get s = none) ∧
    S'.registry.freed.length = S.registry.freed.length + own.listStreams.size

/-- In every reachable state a downstream node is freed as it should be if and only if it has no subscription of its
    own and no `BrokerSubStream`, and its list streams and their requesters are there. -/
theorem node_free_releases {cfg : Config} {ok : Broker J → Event J → Prop} {ok' : Registry → Registry.Event → Prop}
    (hbroker : Reach (Broker.step cfg) ok (fun σ => Broker.brokerInit = some σ) S.broker)
    (hregistry : Reach Registry.step ok' (· = Registry.empty) S.registry)
    {node : DownstreamNode J} (hd : S.broker.dnode.get d = some node)
    {own : Registry.DownstreamNode} (hown : S.registry.dnode.get d = some own) :
    S.Releases d ↔ node.reqSubPaths.size = 0 ∧ node.respSubStreams.size = 0 ∧
      ∀ s ∈ own.listStreams.values, S.registry.Freeable s := by
  have hseated := Registry.reach_seated hregistry
  have hlists := hseated.lists hown
  have hmaps : node.reqSubPaths.size = 0 → node.respSubStreams.size = 0 → S.freeMaps d =
      (own.listStreams.values.foldlM Registry.brokerStreamFree S.registry).map (fun registry => { S with registry }) := by
    intro hreq hresp
    have hfirst : foreach (reqSubPaths d) brokerFreeSubRequester S = some S :=
      foreach_empty (by rw [reqSubPaths, hd]; rfl) hreq
    have hsecond : foreach (respSubStreams d) freeSubStream S = some S :=
      foreach_empty (by rw [respSubStreams, hd]; rfl) hresp
    simp only [freeMaps, hfirst, hsecond, Option.bind_eq_bind, Option.bind_some]
    exact freeListStreams_eq hown
  constructor
  · rintro ⟨S', hrun, -⟩
    have hreq : node.reqSubPaths.size = 0 := by
      by_contra hne
      simp [freeMaps, freeSubs_none (Broker.reach_paths hbroker) hd hne] at hrun
    have hresp : node.respSubStreams.size = 0 := by
      by_contra hne
      have hfirst : foreach (reqSubPaths d) brokerFreeSubRequester S = some S :=
        foreach_empty (by rw [reqSubPaths, hd]; rfl) hreq
      simp [freeMaps, hfirst, freeSubStreams_none (Broker.reach_seats hbroker) hd hne] at hrun
    rw [hmaps hreq hresp] at hrun
    obtain ⟨registry, hfold, -⟩ := Option.map_eq_some_iff.mp hrun
    obtain ⟨hall, -⟩ := Registry.freeLists_spec hlists hfold
    exact ⟨hreq, hresp, fun s hs => (hall s hs).1⟩
  · rintro ⟨hreq, hresp, hfree⟩
    have hlive : ∀ s ∈ own.listStreams.values, S.registry.stream.get s ≠ none := by
      intro s hs
      obtain ⟨st, hst, -⟩ := hfree s hs
      simp [hst]
    obtain ⟨registry, hfold⟩ := Registry.freeLists_total hlists (hseated.nodup hown hlive) hfree
    obtain ⟨hall, -, hlength⟩ := Registry.freeLists_spec hlists hfold
    refine ⟨{ S with registry }, by rw [hmaps hreq hresp, hfold]; rfl, ?_, ?_⟩
    · intro node' hnode'
      cases hd.symm.trans hnode'
      have hempty : ∀ {κ α : Type} [DecidableEq κ] {m : AssocMap κ α}, m.size = 0 → ∀ a, a ∉ m.values := by
        intro κ α _ m hm a ha
        obtain ⟨k, hk⟩ := AssocMap.mem_values.mp ha
        rw [AssocMap.size_eq_zero.mp hm k] at hk
        cases hk
      exact ⟨fun s hs => absurd hs (hempty hreq s), fun st hst => absurd hst (hempty hresp st)⟩
    · intro own' hown'
      cases hown.symm.trans hown'
      refine ⟨fun s hs => ⟨hlive s hs, (hall s hs).2⟩, ?_⟩
      rw [hlength, AssocMap.values, List.length_map]
      rfl

/-- A node with the list streams of two paths, one of which two links ask for. -/
theorem node_free_releases_lists : ∃ S : Views Nat,
    (∃ own, S.registry.dnode.get 0 = some own ∧ own.listStreams.size = 2) ∧ S.Releases 0 := by
  have hbroker := Reach.of_eval (Broker.step (J := Nat) Broker.smallConfig) Broker.brokerInit
    [.initDownstream (cstr "a"), .initDownstream (cstr "b"), .initDownstream (cstr "c")]
    (fun σ => (σ.dnode.get 0).any (fun node => decide (node.reqSubPaths.size = 0 ∧ node.respSubStreams.size = 0)))
    (by decide)
  obtain ⟨broker, hbroker, hempty⟩ := hbroker
  have hregistry := Reach.of_eval Registry.step (some Registry.empty)
    [.addDownstream, .addDownstream, .addDownstream, .connect 0 (some (cstr "a")), .connect 1 (some (cstr "b")),
      .connect 2 (some (cstr "c")), .listDslink 1 0 (cstr "/") 5, .listDslink 2 0 (cstr "/") 5,
      .listDslink 1 0 (cstr "/x") 6, .closeLink 0]
    (fun σ => (σ.dnode.get 0).any (fun own => decide (own.listStreams.size = 2) &&
      own.listStreams.values.all (fun s => (σ.listStream s).any (fun st =>
        st.requesterLinks.values.all (fun k => (σ.link.get k.1).isSome))))) (by decide)
  obtain ⟨registry, hregistry, hlists⟩ := hregistry
  rw [Option.any_eq_true] at hempty hlists
  obtain ⟨node, hd, hempty⟩ := hempty
  obtain ⟨hreq, hresp⟩ := of_decide_eq_true hempty
  obtain ⟨own, hown, hlists⟩ := hlists
  obtain ⟨hsize, hall⟩ := (Bool.and_eq_true _ _).mp hlists
  have hregistry : Reach Registry.step (fun _ _ => True) (· = Registry.empty) registry :=
    hregistry.of_init (fun _ h0 => (Option.some.inj h0).symm)
  refine ⟨⟨broker, registry⟩, ⟨own, hown, of_decide_eq_true hsize⟩, ?_⟩
  refine (node_free_releases (S := ⟨broker, registry⟩) hbroker hregistry hd hown).mpr ⟨hreq, hresp, fun s hs => ?_⟩
  have hlist := List.all_eq_true.mp hall s hs
  rw [Option.any_eq_true] at hlist
  obtain ⟨st, hst, hlinks⟩ := hlist
  refine ⟨st, Registry.listStream_eq_some.mp hst, fun k hk => ?_⟩
  exact Option.isSome_iff_ne_none.mp (List.all_eq_true.mp hlinks k hk)

/-- A link subscribes with the qos 2 and goes: its subscription stays with the node, and so the node cannot be freed. -/
theorem node_free_not_releases : ∃ S : Views Nat,
    Reach (Broker.step Broker.smallConfig) (fun _ _ => True) (fun σ => Broker.brokerInit = some σ) S.broker ∧
      Reach Registry.step (fun _ _ => True) (· = Registry.empty) S.registry ∧
      (S.broker.dnode.get 1).any (fun node => node.link.isNone) = true ∧ (S.registry.dnode.get 1).isSome ∧
      S.brokerNodeFree 1 = none ∧ ¬S.Releases 1 := by
  have hbroker := Reach.of_eval (Broker.step (J := Nat) Broker.smallConfig) Broker.brokerInit
    [.initDownstream (cstr "a"), .initDownstream (cstr "r"), .connect 0, .connect 1,
      .subscribe 1 (Broker.readEntry "/downstream/a/x" 1 2) 0, .closeLink 1]
    (fun σ => (σ.dnode.get 1).any (fun node => decide (node.link.isNone = true ∧ node.reqSubPaths.size = 1)))
    (by decide)
  obtain ⟨broker, hbroker, hsub⟩ := hbroker
  have hregistry := Reach.of_eval Registry.step (some Registry.empty)
    [.addDownstream, .addDownstream, .connect 0 (some (cstr "a")), .connect 1 (some (cstr "r")), .closeLink 1]
    (fun σ => (σ.dnode.get 1).isSome) (by decide)
  obtain ⟨registry, hregistry, hsome⟩ := hregistry
  rw [Option.any_eq_true] at hsub
  obtain ⟨node, hd, hsub⟩ := hsub
  obtain ⟨hlink, hsize⟩ := of_decide_eq_true hsub
  have hne : node.reqSubPaths.size ≠ 0 := by omega
  have hmaps : Views.freeMaps ⟨broker, registry⟩ 1 = none := by
    simp [freeMaps, freeSubs_none (S := ⟨broker, registry⟩) (Broker.reach_paths hbroker) hd hne]
  refine ⟨⟨broker, registry⟩, hbroker, hregistry.of_init (fun _ h0 => (Option.some.inj h0).symm), ?_, hsome, ?_, ?_⟩
  · rw [hd]
    exact hlink
  · simp [brokerNodeFree, hmaps]
  · rintro ⟨S', hrun, -⟩
    cases hmaps.symm.trans hrun

end Views

end DSLink
