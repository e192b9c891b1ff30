import DSLink.Broker.Rows

/-!
# `Broker.Coherent` — the list caches of local nodes agree with their builder

A handler is coherent when it leaves no place behind. Some do so only where what they move without a patch is the same
again.

## Contents
- One lemma for each handler, and the conditions `ClosesQuietly`, `ReplacesQuietly`, `UsesQuietly`, `DeletesQuietly`.
- `Erasing`: the loops that delete rows by hand.
- `Event.Kept`: the events that patch every cache they move. `local_list_caches_coherent`.
-/

namespace DSLink.LocalList

variable {σ τ υ : Broker} {p q : Path} {k key name : CString}

namespace Broker

variable {E E' : Set (Path × CString)} {D : Set Path}

/-! ## Links that go and come -/

theorem brokerRemoteDSLinkFree_linkMoves (h : σ.Wf) {L : LinkId} (hτ : σ.brokerRemoteDSLinkFree L = some τ) :
    LinkMoves ∅ σ τ := by
  simp only [brokerRemoteDSLinkFree, Option.bind_eq_bind, Option.bind_eq_some_iff] at hτ
  obtain ⟨link, -, hτ⟩ := hτ
  refine foldlM_invariant (LinkMoves ∅ σ) (fun τ s _ υ hm hs => ?_) hτ (.refl h)
  exact hm.trans (requesterStreamClosed_linkMoves (hm.wf h) hs)

/-- Closing requests leaves the links alone. -/
theorem link_requesterStreamClosed {s : ListStreamId} {L : LinkId} (hτ : σ.requesterStreamClosed s L = some τ) :
    τ.link = σ.link := by
  simp only [requesterStreamClosed, Option.bind_eq_bind, Option.bind_eq_some_iff] at hτ
  obtain ⟨stream, -, link, -, dsId, -, hτ⟩ := hτ
  split at hτ
  · cases hτ
    show (σ.dropListStream s stream.node).link = σ.link
    unfold dropListStream
    split
    · exact modNode_link _
    · rfl
  · cases hτ
    rfl

theorem link_brokerRemoteDSLinkFree {L : LinkId} (hτ : σ.brokerRemoteDSLinkFree L = some τ) : τ.link = σ.link := by
  simp only [brokerRemoteDSLinkFree, Option.bind_eq_bind, Option.bind_eq_some_iff] at hτ
  obtain ⟨link, -, hτ⟩ := hτ
  exact foldlM_invariant (fun υ => υ.link = σ.link) (fun _ _ _ _ hυ hs => (link_requesterStreamClosed hs).trans hυ)
    hτ rfl

theorem disconnectedTs_not_top : cstr "$disconnectedTs" ∉ topLevelKeys := by decide

/-- A link that closes takes the `$linkData` of its node with it. -/
theorem brokerCloseLink_linkMoves (h : σ.Wf) {L : LinkId} {ts : CString} (hυ : σ.brokerCloseLink L ts = some υ) :
    ∃ link τ, σ.link.get L = some link ∧ σ.brokerRemoteDSLinkFree L = some τ ∧ LinkMoves {link.home} σ υ ∧
      Lists τ υ ∧ υ.linkOf link.home = none ∧ υ.link = σ.link.free L := by
  simp only [brokerCloseLink, Option.bind_eq_bind, Option.bind_eq_some_iff, Option.some.injEq] at hυ
  obtain ⟨link, hlink, τ, hτ, rfl⟩ := hυ
  have hfree := brokerRemoteDSLinkFree_linkMoves h hτ
  have hτwf := hfree.wf h
  have hunset : LinkMoves {link.home} τ (τ.setLink link.home none) := setLink_linkMoves hτwf (by simp)
  have hts : LinkMoves ∅ (τ.setLink link.home none) ((τ.setLink link.home none).setDownstreamMeta link.home
      (cstr "$disconnectedTs") (some (.string ts))) :=
    setDownstreamMeta_linkMoves (hunset.wf hτwf) disconnectedTs_not_top _
  have hnone : ((τ.setLink link.home none).setDownstreamMeta link.home
      (cstr "$disconnectedTs") (some (.string ts))).linkOf link.home = none := by
    rw [linkOf_setDownstreamMeta, linkOf_setLink_self, ite_self]
  have hlinkeq := link_brokerRemoteDSLinkFree hτ
  have hgone : LinkMoves ∅ _ _ := freeLink_linkMoves (hts.wf (hunset.wf hτwf)) (L := L) (by
    intro q hq
    by_cases hqh : q = link.home
    · rw [hqh, hnone] at hq
      cases hq
    · rw [linkOf_setDownstreamMeta, linkOf_setLink hqh] at hq
      obtain ⟨link', hL', hhome⟩ := hτwf.links hq
      rw [hlinkeq, hlink] at hL'
      cases hL'
      exact hqh hhome.symm)
  have hmoves := (hunset.trans (hts.mono (Set.empty_subset _))).trans (hgone.mono (Set.empty_subset _))
  refine ⟨link, τ, hlink, hτ, (hfree.mono (Set.empty_subset _)).trans hmoves, hmoves.lists, hnone, ?_⟩
  show Heap.free _ L = _
  rw [link_setDownstreamMeta, link_setLink, hlinkeq]

/-- Nobody lists the parent of the link's node once the requests of the link are closed, or the node has no
    `$linkData` to lose. -/
def ClosesQuietly (σ : Broker) (L : LinkId) : Prop :=
  ∀ link τ, σ.link.get L = some link → σ.brokerRemoteDSLinkFree L = some τ →
    τ.listStream link.home.tail ≠ none → σ.linkDataAt link.home = none

theorem Behind.brokerCloseLink (h : Behind E σ) {L : LinkId} {ts : CString} (hquiet : σ.ClosesQuietly L)
    (hυ : σ.brokerCloseLink L ts = some υ) : Behind E υ := by
  obtain ⟨link, τ, hlink, hτ, hm, hl, hnone, -⟩ := brokerCloseLink_linkMoves h.wf hυ
  refine h.linkMoves_same hm (fun k p hk hp => ?_)
  have hhome : k :: p = link.home := hk
  have hlisted : τ.listStream p ≠ none := by
    rcases hl.listStream p with hn | he
    · exact absurd hn hp
    · exact he ▸ hp
  rw [hhome, hquiet link τ hlink hτ (by rwa [← hhome])]
  unfold linkDataAt
  rw [hnone]
  rfl

theorem Behind.brokerCloseLinkIfAny (h : Behind E σ) {L : Option LinkId} {ts : CString}
    (hquiet : ∀ L', L = some L' → σ.ClosesQuietly L') (hυ : σ.brokerCloseLinkIfAny L ts = some υ) : Behind E υ := by
  cases L with
  | none =>
    cases hυ
    exact h
  | some L => exact h.brokerCloseLink (hquiet L rfl) hυ

/-! ## The web socket handshake -/

theorem downstreamNode_eq {node : BrokerNode} (hnode : σ.node.get (name :: downstream) = some node) :
    σ.downstreamNode name = σ := by simp [downstreamNode, hnode]

theorem Behind.downstreamNode (h : Behind ∅ σ) (name : CString) : Behind ∅ (σ.downstreamNode name) := by
  unfold Broker.downstreamNode
  split
  · exact h
  · exact h.brokerInitDownstreamNode _ _

theorem link_updateListChild (s : Option ListStreamId) : (σ.updateListChild p s name).link = σ.link := by
  cases s <;> rfl

theorem node_updateListChild (s : Option ListStreamId) : (σ.updateListChild p s name).node = σ.node := by
  cases s <;> rfl

theorem link_downstreamNode : (σ.downstreamNode name).link = σ.link := by
  unfold Broker.downstreamNode
  split
  · rfl
  · exact link_updateListChild _

/-- A link is put on the node of its name; the members that change are not in the row of the node. -/
theorem connect_linkMoves (h : σ.Wf) {L : LinkId} (link : RemoteDSLink) (hL : σ.link.get L = some link)
    (hhome : link.home = p) : LinkMoves {p} σ (σ.brokerDSLinkConnect p L) := by
  have hset : LinkMoves {p} σ (σ.setLink p (some L)) :=
    setLink_linkMoves h (by
      rintro L' ⟨⟩
      exact ⟨link, hL, hhome⟩)
  exact hset.trans ((setDownstreamMeta_linkMoves (hset.wf h) disconnectedTs_not_top none).mono (Set.empty_subset _))

/-- What a web socket handshake writes before the node gets the link. -/
def beforeAttach (σ : Broker) (L : LinkId) (link : RemoteDSLink) (p : Path) (oldDsId : Option CString)
    (dsId : CString) : Broker :=
  (({ σ with link := σ.link.put L { link with dsId := oldDsId } } : Broker).setDsId p oldDsId).setDownstreamMeta p
    (cstr "$$dsId") (some (.string dsId))

theorem beforeAttach_linkMoves (h : σ.Wf) {L : LinkId} {link : RemoteDSLink} (hL : σ.link.get L = some link)
    (oldDsId : Option CString) (dsId : CString) : LinkMoves ∅ σ (σ.beforeAttach L link p oldDsId dsId) := by
  have hput := putLink_linkMoves h { link with dsId := oldDsId } hL rfl rfl
  have hdsId := setDsId_linkMoves (p := p) (hput.wf h) oldDsId
  exact (hput.trans hdsId).trans (setDownstreamMeta_linkMoves (hdsId.wf (hput.wf h))
    (show cstr "$$dsId" ∉ topLevelKeys by decide) (some (.string dsId)))

theorem get_beforeAttach {L : LinkId} {link : RemoteDSLink} (hL : σ.link.get L = some link) (oldDsId : Option CString)
    (dsId : CString) :
    (σ.beforeAttach L link p oldDsId dsId).link.get L = some { link with dsId := oldDsId } := by
  rw [beforeAttach, link_setDownstreamMeta, link_setDsId]
  exact Heap.get_put_self hL

theorem attach_linkMoves (h : σ.Wf) {L : LinkId} {link : RemoteDSLink} (hL : σ.link.get L = some link)
    (hhome : link.home = p) (oldDsId : Option CString) (dsId : CString) :
    LinkMoves {p} σ ((σ.beforeAttach L link p oldDsId dsId).brokerDSLinkConnect p L) := by
  have hbefore := beforeAttach_linkMoves (p := p) h hL oldDsId dsId
  exact (hbefore.mono (Set.empty_subset _)).trans
    (connect_linkMoves (hbefore.wf h) _ (get_beforeAttach hL oldDsId dsId) hhome)

/-- The row of a downstream node has the data of its new link. -/
theorem linkDataAt_connect {L : LinkId} :
    (σ.brokerDSLinkConnect p L).linkDataAt p =
      if σ.isDownstream p then (σ.link.get L).bind RemoteDSLink.linkData else none := by
  unfold linkDataAt brokerDSLinkConnect
  rw [linkOf_setDownstreamMeta, linkOf_setLink_self, link_setDownstreamMeta, link_setLink]
  split <;> rfl

/-- A web socket for a node that is there: nobody lists `/downstream` once the requests of the old link are closed, or
    the new link has the `linkData` of the old one. -/
def ReplacesQuietly (σ : Broker) (L : LinkId) : Prop :=
  ∀ link τ, σ.link.get L = some link → (σ.node.get (link.name :: downstream)).isSome →
    (σ.linkOf (link.name :: downstream)).elim (some σ) σ.brokerRemoteDSLinkFree = some τ →
    τ.listStream downstream ≠ none → σ.linkDataAt (link.name :: downstream) = link.linkData

/-- The old link of the node is closed first. -/
theorem closeOld (h : σ.Wf) {L : LinkId} {link : RemoteDSLink} {ts : CString}
    (hτ : σ.brokerCloseLinkIfAny (σ.linkOf p) ts = some τ) (hL : τ.link.get L = some link) :
    σ.link.get L = some link ∧ LinkMoves {p} σ τ ∧
      ∃ υ, (σ.linkOf p).elim (some σ) σ.brokerRemoteDSLinkFree = some υ ∧ Lists υ τ := by
  cases hp : σ.linkOf p with
  | none =>
    rw [hp] at hτ
    cases hτ
    exact ⟨hL, .refl h, σ, rfl, .refl σ⟩
  | some L0 =>
    rw [hp] at hτ
    obtain ⟨link0, υ, hlink0, hυ, hm, hl, -, hfree⟩ := brokerCloseLink_linkMoves h hτ
    obtain ⟨link0', hlink0', hhome⟩ := h.links hp
    cases hlink0.symm.trans hlink0'
    rw [hfree] at hL
    exact ⟨(Heap.get_free_eq_some.mp hL).2, hhome ▸ hm, υ, hυ, hl⟩

theorem isDownstream_downstreamNode (hex : σ.node.get (name :: downstream) = none) :
    (σ.downstreamNode name).isDownstream (name :: downstream) = true := by
  simp [isDownstream, Broker.downstreamNode, hex, brokerInitDownstreamNode, brokerNodeUpdateChild, node_updateListChild,
    BrokerNode.isDownstream]

/-- A new node gets its row when it has its link; an old one keeps the row it had. -/
theorem Behind.brokerHandshakeHandleWs (h : Behind ∅ σ) {L : LinkId} {dsId ts : CString}
    (hquiet : σ.ReplacesQuietly L) (hυ : σ.brokerHandshakeHandleWs L dsId ts = some υ) : Behind ∅ υ := by
  simp only [Broker.brokerHandshakeHandleWs, Option.bind_eq_bind, Option.bind_eq_some_iff] at hυ
  obtain ⟨link, hlink, τ, hτ, link', hlink', hυ⟩ := hυ
  split at hυ
  · cases hυ
  rename_i hup
  have hup : link'.isUpstream = false := by simpa using hup
  cases hex : σ.node.get (link.name :: downstream) with
  | none =>
    have hno : σ.linkOf (link.name :: downstream) = none := by rw [linkOf, hex]; rfl
    rw [hno] at hτ
    cases hτ
    rw [link_downstreamNode, hlink] at hlink'
    cases hlink'
    rw [hex] at hυ
    cases hυ
    have hnode := h.downstreamNode link.name
    have hm := attach_linkMoves hnode.wf (p := link.name :: downstream) (link_downstreamNode ▸ hlink)
      (by simp [RemoteDSLink.home, hup]) (some dsId) dsId
    refine (hnode.linkMoves hm).updateListChild (fun _ hn => ?_) (fun q l hml => ?_)
    · have hdown := (hm.down _).trans (isDownstream_downstreamNode hex)
      rw [isDownstream, show Option.any _ _ = false from congrArg (Option.any _) hn] at hdown
      cases hdown
    · rcases hml with hml | hml
      · exact hml.elim
      · obtain ⟨rfl, rfl⟩ := List.cons.inj (show l :: q = link.name :: downstream from hml)
        exact .inr rfl
  | some node =>
    rw [downstreamNode_eq hex] at hτ
    obtain ⟨hlinkσ, hclose, τ0, hτ0, hlists⟩ := closeOld h.wf hτ hlink'
    cases hlink.symm.trans hlinkσ
    rw [hex] at hυ
    cases hυ
    have hτwf := hclose.wf h.wf
    have hbefore := beforeAttach_linkMoves (p := link.name :: downstream) hτwf hlink' node.dsId dsId
    have hm := attach_linkMoves hτwf hlink' (p := link.name :: downstream)
      (by simp [RemoteDSLink.home, hup]) node.dsId dsId
    refine h.linkMoves_same (hclose.trans hm) (fun k q hk hq => ?_)
    obtain ⟨rfl, rfl⟩ := List.cons.inj (show k :: q = link.name :: downstream from hk)
    have hlisted : τ0.listStream downstream ≠ none := by
      rcases (hlists.trans hm.lists).listStream downstream with hn | he
      · exact absurd hn hq
      · exact he ▸ hq
    have hold := hquiet link τ0 hlink (by simp [hex]) hτ0 hlisted
    refine (linkDataAt_connect (σ := τ.beforeAttach L link (link.name :: downstream) node.dsId dsId)).trans ?_
    rw [hbefore.down, hclose.down, get_beforeAttach hlink']
    split
    · exact hold.symm
    · rename_i hdown
      unfold linkDataAt
      rw [linkOf_eq_none (by simpa using hdown)]
      rfl

/-! ## Nodes that are freed -/

/-- Freeing list streams changes nothing but the tables of links. -/
structure Frees (S : Set ListStreamId) (σ τ : Broker) : Prop where
  node : τ.node = σ.node
  link : ∀ L link, σ.link.get L = some link →
    ∃ link', τ.link.get L = some link' ∧ link'.home = link.home ∧ link'.linkData = link.linkData
  stream : ∀ s, s ∉ S → τ.stream.get s = σ.stream.get s

variable {S : Set ListStreamId}

theorem Frees.refl (σ : Broker) : Frees S σ σ := ⟨rfl, fun _ link hL => ⟨link, hL, rfl, rfl⟩, fun _ _ => rfl⟩

theorem Frees.trans (h : Frees S σ τ) (h' : Frees S τ υ) : Frees S σ υ where
  node := h'.node.trans h.node
  link L link hL := by
    obtain ⟨link', hL', hhome', hd'⟩ := h.link L link hL
    obtain ⟨link'', hL'', hhome'', hd''⟩ := h'.link L link' hL'
    exact ⟨link'', hL'', hhome''.trans hhome', hd''.trans hd'⟩
  stream s hs := (h'.stream s hs).trans (h.stream s hs)

theorem fileOther_frees (L : LinkId) (rid : Nat) : Frees S σ (σ.fileOther L rid) := by
  refine ⟨rfl, fun L' link hL' => ?_, fun _ _ => rfl⟩
  by_cases hL : L' = L
  · subst hL
    refine ⟨{ link with requesterStreams := link.requesterStreams.erase rid }, ?_, rfl, rfl⟩
    rw [fileOther, Heap.get_modify_self, hL', Option.map_some]
  · exact ⟨link, by rw [fileOther, Heap.get_modify_ne hL, hL'], rfl, rfl⟩

theorem brokerStreamFree_frees {s : ListStreamId} (hs : s ∈ S) (hτ : σ.brokerStreamFree s = some τ) : Frees S σ τ := by
  simp only [brokerStreamFree, Option.bind_eq_bind, Option.bind_eq_some_iff, Option.some.injEq] at hτ
  obtain ⟨stream, -, υ, hυ, rfl⟩ := hτ
  have hloop : Frees S σ υ := by
    refine foldlM_invariant (Frees S σ) (fun τ e _ υ hf he => ?_) hυ (.refl σ)
    obtain ⟨-, -, he⟩ := Option.bind_eq_some_iff.mp he
    cases he
    exact hf.trans (fileOther_frees _ _)
  refine hloop.trans ⟨rfl, fun _ link hL => ⟨link, hL, rfl, rfl⟩, fun s' hs' => ?_⟩
  apply Heap.get_free_ne
  rintro rfl
  exact hs' hs

/-- The list streams of a node and of all below it. -/
def streamsBelow (σ : Broker) (p : Path) : Set ListStreamId :=
  {s | ∃ q, p.isSuffixOf q = true ∧ σ.listStream q = some s}

theorem freeBelow_frees (hτ : σ.freeBelow p = some τ) :
    ∃ υ, Frees (σ.streamsBelow p) σ υ ∧ τ = υ.removeNodes p.isSuffixOf := by
  simp only [Broker.freeBelow, Option.bind_eq_bind, Option.bind_eq_some_iff, Option.some.injEq] at hτ
  obtain ⟨υ, hυ, rfl⟩ := hτ
  refine ⟨υ, foldlM_invariant (Frees _ σ) (fun τ e he υ hf hs => ?_) hυ (.refl σ), rfl⟩
  obtain ⟨hmem, hbelow⟩ := List.mem_filter.mp he
  cases hl : e.2.listStream with
  | none =>
    rw [hl] at hs
    cases hs
    exact hf
  | some s =>
    rw [hl] at hs
    refine hf.trans (brokerStreamFree_frees ⟨e.1, hbelow, ?_⟩ hs)
    rw [listStream, AssocMap.mem_entries.mp hmem, Option.bind_some, hl]

/-- A node that stays does not share its list stream with one that is freed. -/
theorem not_mem_streamsBelow (h : σ.Wf) (hq : p.isSuffixOf q = false) {s : ListStreamId} (hs : σ.listStream q = some s) :
    s ∉ σ.streamsBelow p := by
  rintro ⟨q', hbelow, hq'⟩
  obtain ⟨st1, hst1, hn1⟩ := h.streams hs
  obtain ⟨st2, hst2, hn2⟩ := h.streams hq'
  cases hst1.symm.trans hst2
  rw [← hn1, hn2] at hq
  rw [hq] at hbelow
  cases hbelow

/-- The node and everything below it are gone, with the list streams they had. -/
theorem Behind.freeBelow (h : Behind E σ) (hτ : σ.freeBelow p = some τ) :
    Behind (E ∪ {e | p.isSuffixOf (e.2 :: e.1) = true ∧ p.isSuffixOf e.1 = false}) τ ∧
      LinkMoves ∅ (σ.removeNodes p.isSuffixOf) τ := by
  obtain ⟨υ, hfrees, rfl⟩ := freeBelow_frees hτ
  have hgone := h.removeNodes p.isSuffixOf
  have hnode : (υ.removeNodes p.isSuffixOf).node = (σ.removeNodes p.isSuffixOf).node := by
    rw [Broker.removeNodes, Broker.removeNodes, hfrees.node]
  -- a stream that was freed belonged to a node that is gone
  have hstreams : LinkMoves ∅ (σ.removeNodes p.isSuffixOf)
      { σ.removeNodes p.isSuffixOf with stream := υ.stream } := by
    refine stream_linkMoves hgone.wf rfl rfl (fun q s st hq hst => ⟨st, ?_, rfl, rfl⟩)
    rw [listStream_removeNodes] at hq
    split at hq
    · cases hq
    · rename_i hnot
      rw [hfrees.stream s (not_mem_streamsBelow h.wf (Bool.eq_false_iff.mpr hnot) hq), ← hst]
      rfl
  have hlinks : LinkMoves ∅ { σ.removeNodes p.isSuffixOf with stream := υ.stream } (υ.removeNodes p.isSuffixOf) :=
    link_linkMoves (hstreams.wf hgone.wf) hnode rfl (fun _ L link _ hL => hfrees.link L link hL)
  exact ⟨hgone.linkMoves_none (hstreams.trans hlinks), hstreams.trans hlinks⟩

theorem isSuffixOf_tail (name : CString) (p : Path) : (name :: p).isSuffixOf p = false := by
  cases h : (name :: p).isSuffixOf p with
  | false => rfl
  | true =>
    have hle := (List.isSuffixOf_iff_suffix.mp h).length_le
    exact absurd hle (by simp)

/-- The only row a freed node leaves behind is the one its parent has of it. -/
theorem below_row (h : (name :: p).isSuffixOf (k :: q) = true) (hq : (name :: p).isSuffixOf q = false) :
    k = name ∧ q = p := by
  rw [List.isSuffixOf_iff_suffix] at h
  rcases List.suffix_cons_iff.mp h with he | hs
  · obtain ⟨rfl, rfl⟩ := List.cons.inj he
    exact ⟨rfl, rfl⟩
  · rw [← List.isSuffixOf_iff_suffix, hq] at hs
    cases hs

/-- A node is freed and its row deleted; no member of the parent has its name. -/
theorem Behind.brokerNodeFree (h : Behind E σ) (hE : ∀ q l, (q, l) ∈ E → q = name :: p)
    (hkey : σ.listStream p ≠ none → (σ.metadata p).get name = none) (hυ : σ.brokerNodeFree p name = some υ) :
    Behind ∅ υ := by
  simp only [Broker.brokerNodeFree, Option.bind_eq_bind, Option.bind_eq_some_iff, Option.some.injEq] at hυ
  obtain ⟨-, -, τ, hτ, rfl⟩ := hυ
  obtain ⟨hτb, hm⟩ := h.freeBelow hτ
  have hparent := isSuffixOf_tail name p
  have hrow : Behind {e | e = (p, name)} τ := by
    apply hτb.shrink
    intro q l hml hnot
    rcases hml with hml | hml
    · -- the node itself is gone
      rcases hm.lists.listStream q with hn | he
      · exact hn
      · rw [he, listStream_removeNodes, hE q l hml, List.isSuffixOf_iff_suffix.mpr (List.suffix_refl _)]
        rfl
    · obtain ⟨rfl, rfl⟩ := below_row hml.1 hml.2
      exact absurd rfl hnot
  refine hrow.updateListChild (fun hl _ => ?_) (fun q l hml => .inr hml)
  rw [hm.metadata p hl, metadata_removeNodes hparent]
  apply hkey
  have hold := hm.lists.listStream p
  rw [listStream_removeNodes, hparent] at hold
  rcases hold with hn | he
  · exact absurd hn hl
  · rw [he] at hl
    exact hl

/-! ## Attributes and data nodes -/

theorem listStream_setMeta {value : Option Json} : (σ.setMeta p key value).listStream q = σ.listStream q :=
  listStream_modNode _ (fun _ => rfl)

theorem linkOf_setMeta {value : Option Json} : (σ.setMeta p key value).linkOf q = σ.linkOf q :=
  linkOf_modNode _ (fun _ => rfl)

/-- A member of the `meta` of any node. -/
theorem Behind.setMeta (h : Behind E σ) (hkey : key ∉ topLevelKeys) (value : Option Json) :
    Behind (E ∪ {e | e = (p, key)}) (σ.setMeta p key value) := by
  refine h.move (.of_eq (modNode_stream _) (fun q => .inr listStream_setMeta)) (fun q L hq => ?_)
    (fun q k hk hq => source_congr ?_ ?_ ?_)
  · rw [linkOf_setMeta] at hq
    rw [Broker.setMeta, modNode_link]
    exact h.wf.links hq
  · exact topAt_modNode _ (fun n => listSetTopLevel_setMember n hkey value)
  · rw [linkDataAt, linkDataAt, linkOf_setMeta, Broker.setMeta, modNode_link]
  · unfold Broker.metadata
    rw [Broker.setMeta, get_modNode]
    split
    · rename_i hqp
      subst hqp
      cases σ.node.get q with
      | none => rfl
      | some n =>
        refine (get_setMember n.metadata key k value).trans (if_neg ?_)
        rintro rfl
        exact hk rfl
    · rfl

theorem attribute_not_top (h : key.head? = some 64) : key ∉ topLevelKeys := by
  have htop : ∀ k ∈ topLevelKeys, k.head? ≠ some 64 := by decide
  exact fun hk => htop key hk h

theorem Behind.setAttribute (h : Behind ∅ σ) {value : Option Json}
    (hchild : σ.listStream p ≠ none → σ.node.get (name :: p) = none) (hτ : σ.setAttribute p name value = some τ) :
    Behind ∅ τ := by
  simp only [Broker.setAttribute, Option.bind_eq_bind, Option.bind_eq_some_iff] at hτ
  obtain ⟨node, hnode, hτ⟩ := hτ
  split at hτ
  · cases hτ
  · rename_i listStream hkind
    split at hτ
    · cases hτ
      rename_i hat
      have hlist : σ.listStream p = listStream := by
        rw [Broker.listStream, hnode, Option.bind_some, BrokerNode.listStream, hkind]
      have hlist' : (σ.setMeta p name value).listStream p = listStream :=
        listStream_setMeta.trans hlist
      have hset := h.setMeta (p := p) (attribute_not_top hat) value
      rw [← hlist']
      refine hset.updateListAttribute (fun hl => ?_) ?_ (fun q l hml => ?_)
      · rw [Broker.setMeta, get_modNode, if_neg (by simp)]
        exact hchild (by rwa [hlist, ← hlist'])
      · rw [metadata, Broker.setMeta, get_modNode, if_pos rfl, hnode]
        exact (get_setMember _ _ _ _).trans (if_pos rfl)
      · rcases hml with hml | hml
        · exact hml.elim
        · exact .inr hml
    · cases hτ
      exact h

/-- The node deletes its own name from its cache before it is freed, so nothing of it is left behind. -/
theorem Behind.onDeleteNodeInvoked (h : Behind ∅ σ)
    (hkey : σ.listStream p ≠ none → (σ.metadata p).get name = none) (hυ : σ.onDeleteNodeInvoked p name = some υ) :
    Behind ∅ υ := by
  simp only [Broker.onDeleteNodeInvoked, Option.bind_eq_bind, Option.bind_eq_some_iff] at hυ
  obtain ⟨τ, hτ, hυ⟩ := hυ
  unfold deleteOwnName at hτ
  split at hτ
  · cases hτ
    exact h.brokerNodeFree (fun _ _ hm => hm.elim) hkey hυ
  · rename_i stream hstream
    split at hτ
    · cases hτ
    · cases hτ
      obtain ⟨s, hs, -⟩ := Option.bind_eq_some_iff.mp hstream
      rw [hs] at hυ
      have hown : Behind {e | e = (name :: p, name)} (σ.patch s name none) :=
        h.patch hs (fun _ _ hm => hm.elim) (.inr rfl)
      exact hown.brokerNodeFree (fun q l hm => congrArg Prod.fst (show (q, l) = _ from hm)) hkey hυ

/-! ## Tokens -/

/-- The count of a token that is not listed, or that does not count down. -/
theorem Behind.tokenUsed (h : Behind E σ)
    (hcount : σ.listStream p ≠ none → ∀ c : Int, (σ.metadata p).get (cstr "$$count") = some (.integer c) → c ≤ 0) :
    Behind E (σ.tokenUsed p) := by
  unfold Broker.tokenUsed
  split
  · rename_i count hc
    split
    · rename_i hpos
      have hset := h.setMeta (p := p) (show cstr "$$count" ∉ topLevelKeys by decide) (some (.integer (count - 1)))
      apply hset.shrink
      intro q l hm hnot
      obtain ⟨rfl, -⟩ := Prod.mk.inj (show (q, l) = _ from hm.resolve_left hnot)
      rw [listStream_setMeta]
      by_contra hl
      exact absurd (hcount hl count hc) (not_le.mpr hpos)
    · exact h
  · exact h

/-- A token without its file leaves its map without a word. -/
def LosesToken (σ : Broker) (tokenId : CString) (check : TokenCheck) : Prop :=
  (σ.node.get (tokenId :: tokenRootNode)).any usable = true ∧ check.file = false

theorem Behind.getTokenNode (h : Behind ∅ σ) (check : TokenCheck)
    (hfile : σ.LosesToken name check → σ.listStream tokenRootNode = none) :
    Behind ∅ (σ.getTokenNode name check).1 := by
  unfold Broker.getTokenNode
  split
  · exact h
  · rename_i node hnode
    split
    · exact h
    · split
      · exact h
      · rename_i husable hcheck
        have hlost : σ.LosesToken name check := by
          refine ⟨?_, by simpa using hcheck⟩
          rw [hnode, Option.any_some]
          simpa using husable
        apply (h.removeNodes _).shrink
        intro q l hm _
        obtain ⟨rfl, rfl⟩ := below_row (hm.resolve_left id).1 (hm.resolve_left id).2
        rw [listStream_removeNodes, hfile hlost]
        exact ite_self _

theorem get_modNode_ne (f : BrokerNode → BrokerNode) (hq : q ≠ p) : (σ.modNode p f).node.get q = σ.node.get q := by
  rw [get_modNode, if_neg hq]

theorem isSome_modNode (f : BrokerNode → BrokerNode) :
    ((σ.modNode p f).node.get q).isSome = (σ.node.get q).isSome := by
  rw [get_modNode]
  split
  · rename_i hq
    rw [hq, Option.isSome_map]
  · rfl

theorem get_downstreamNode_ne (hq : q ≠ name :: downstream) :
    (σ.downstreamNode name).node.get q = σ.node.get q := by
  unfold Broker.downstreamNode
  split
  · rfl
  · rw [brokerInitDownstreamNode, brokerNodeUpdateChild, node_updateListChild]
    exact AssocMap.get_set_ne hq

theorem isSome_downstreamNode : ((σ.downstreamNode name).node.get (name :: downstream)).isSome = true := by
  unfold Broker.downstreamNode
  split
  · assumption
  · rw [brokerInitDownstreamNode, brokerNodeUpdateChild, node_updateListChild]
    simp

/-- The row of the node is written with the waiting link and then the link is taken away. -/
theorem Behind.showWaiting (h : Behind ∅ σ) {L : LinkId} {link : RemoteDSLink} (hL : σ.link.get L = some link)
    (hhome : link.home = name :: downstream) (hdata : σ.listStream downstream ≠ none → link.linkData = none)
    (hnode : (σ.node.get (name :: downstream)).isSome = true) : Behind ∅ (σ.showWaiting L name) := by
  unfold Broker.showWaiting
  split
  · exact h
  rename_i s hs
  have hdata := hdata (by simp [hs])
  have hset := setLink_linkMoves (L := some L) h.wf (by
    rintro L' ⟨⟩
    exact ⟨link, hL, hhome⟩)
  have hs' : (σ.setLink (name :: downstream) (some L)).listStream downstream = some s :=
    (listStream_modNode _ (BrokerNode.modDownstream_listStream (fun _ _ => rfl))).trans hs
  have hrow : Behind ∅ ((σ.setLink (name :: downstream) (some L)).updateListChild downstream (some s) name) := by
    rw [← hs']
    refine (h.linkMoves hset).updateListChild (fun _ hn => ?_) (fun q l hml => ?_)
    · rw [← isSome_modNode (σ := σ)] at hnode
      rw [setLink] at hn
      rw [hn] at hnode
      cases hnode
    · rcases hml with hml | hml
      · exact hml.elim
      · obtain ⟨rfl, rfl⟩ := List.cons.inj (show l :: q = name :: downstream from hml)
        exact .inr rfl
  have hunset := setLink_linkMoves (L := none) (p := name :: downstream) hrow.wf (by simp)
  refine hrow.linkMoves_same hunset (fun k q hk _ => ?_)
  obtain ⟨rfl, rfl⟩ := List.cons.inj (show k :: q = name :: downstream from hk)
  -- the link that was shown has no data either
  have hafter : ∀ τ : Broker, (τ.setLink (k :: downstream) none).linkDataAt (k :: downstream) = none := by
    intro τ
    rw [linkDataAt, linkOf_setLink_self, ite_self]
    rfl
  rw [hafter, linkDataAt, linkOf, node_updateListChild, link_updateListChild, link_setLink]
  have hself := linkOf_setLink_self (σ := σ) (p := k :: downstream) (some L)
  rw [linkOf] at hself
  rw [hself]
  split
  · rw [Option.bind_some, hL, Option.bind_some, hdata]
  · rfl

/-- A token that is used changes a count, and shows a link that has no data. -/
theorem Behind.useToken (h : Behind ∅ σ) {L : LinkId} {link : RemoteDSLink} {dsId tokenId : CString}
    (hL : σ.link.get L = some link) (hhome : link.home = name :: downstream)
    (hdata : σ.listStream downstream ≠ none → link.linkData = none)
    (hcount : σ.listStream (tokenId :: tokenRootNode) ≠ none →
      ∀ c : Int, (σ.metadata (tokenId :: tokenRootNode)).get (cstr "$$count") = some (.integer c) → c ≤ 0) :
    Behind ∅ (σ.useToken L name dsId tokenId) := by
  have hne : tokenId :: tokenRootNode ≠ name :: downstream := by simp [tokenRootNode, downstream]
  have hne' : downstream ≠ name :: downstream := by simp [downstream]
  unfold Broker.useToken
  dsimp only
  -- the node with its token and its dsId
  have hnode := h.downstreamNode name
  have htoken := setDownstreamMeta_linkMoves (p := name :: downstream) hnode.wf
    (show cstr "$$token" ∉ topLevelKeys by decide) (some (.string tokenId))
  have hdsId := setDsId_linkMoves (p := name :: downstream) (htoken.wf hnode.wf) (some dsId)
  have hτ := hnode.linkMoves_none (htoken.trans hdsId)
  have hget : ∀ q, q ≠ name :: downstream → (((σ.downstreamNode name).setDownstreamMeta (name :: downstream)
      (cstr "$$token") (some (.string tokenId))).setDsId (name :: downstream) (some dsId)).node.get q =
      σ.node.get q := by
    intro q hq
    rw [setDsId, get_modNode_ne _ hq, setDownstreamMeta, get_modNode_ne _ hq, get_downstreamNode_ne hq]
  have hsome : ((((σ.downstreamNode name).setDownstreamMeta (name :: downstream)
      (cstr "$$token") (some (.string tokenId))).setDsId (name :: downstream) (some dsId)).node.get
      (name :: downstream)).isSome = true := by
    rw [setDsId, isSome_modNode, setDownstreamMeta, isSome_modNode, isSome_downstreamNode]
  have hlink : (((σ.downstreamNode name).setDownstreamMeta (name :: downstream)
      (cstr "$$token") (some (.string tokenId))).setDsId (name :: downstream) (some dsId)).link.get L =
      some link := by
    rw [link_setDsId, link_setDownstreamMeta, link_downstreamNode, hL]
  generalize ((σ.downstreamNode name).setDownstreamMeta (name :: downstream)
      (cstr "$$token") (some (.string tokenId))).setDsId (name :: downstream) (some dsId) = τ
    at hτ hget hsome hlink ⊢
  have hdata' : τ.listStream downstream ≠ none → link.linkData = none := by
    intro hl
    apply hdata
    rwa [listStream, ← hget _ hne']
  have hυb := hτ.showWaiting hlink hhome hdata' hsome
  have hυget : (τ.showWaiting L name).node.get (tokenId :: tokenRootNode) = σ.node.get (tokenId :: tokenRootNode) := by
    unfold Broker.showWaiting
    split
    · exact hget _ hne
    · rw [setLink, get_modNode_ne _ hne, node_updateListChild, setLink, get_modNode_ne _ hne, hget _ hne]
  generalize τ.showWaiting L name = υ at hυb hυget ⊢
  -- the group
  have hcountυ : ∀ ρ : Broker, ρ.node.get (tokenId :: tokenRootNode) = σ.node.get (tokenId :: tokenRootNode) →
      ρ.listStream (tokenId :: tokenRootNode) ≠ none → ∀ c : Int,
        (ρ.metadata (tokenId :: tokenRootNode)).get (cstr "$$count") = some (.integer c) → c ≤ 0 := by
    intro ρ hρ hl c hc
    rw [listStream, hρ] at hl
    rw [metadata, hρ] at hc
    exact hcount hl c hc
  split
  · have hgroup := setDownstreamMeta_linkMoves (p := name :: downstream) hυb.wf
      (show cstr "$$group" ∉ topLevelKeys by decide)
      ((υ.metadata (tokenId :: tokenRootNode)).get (cstr "$$group"))
    refine (hυb.linkMoves_none hgroup).tokenUsed (hcountυ _ ?_)
    rw [setDownstreamMeta, get_modNode_ne _ hne, hυget]
  · exact hυb.tokenUsed (hcountυ _ hυget)

/-- `get_token_node` accepts a token. -/
def AcceptsToken (σ : Broker) (tokenId : CString) (check : TokenCheck) : Prop :=
  (σ.node.get (tokenId :: tokenRootNode)).any usable = true ∧ check.file = true ∧ check.hash = true

theorem getTokenNode_accepts {check : TokenCheck} (h : (σ.getTokenNode name check).2 = true) :
    σ.AcceptsToken name check ∧ (σ.getTokenNode name check).1 = σ := by
  revert h
  unfold Broker.getTokenNode AcceptsToken
  split
  · simp
  · rename_i node hnode
    split
    · simp
    · rename_i husable
      split
      · rename_i hfile
        intro hhash
        rw [hnode, Option.any_some]
        exact ⟨⟨by simpa using husable, hfile, hhash⟩, rfl⟩
      · simp

theorem linkOf_getTokenNode {check : TokenCheck} {L : LinkId}
    (h : (σ.getTokenNode name check).1.linkOf q = some L) : σ.linkOf q = some L := by
  revert h
  unfold Broker.getTokenNode
  split
  · exact id
  · split
    · exact id
    · split
      · exact id
      · intro h
        rw [linkOf, get_removeNodes] at h
        split at h
        · cases h
        · exact h

/-- A token in a handshake: it is not lost while tokens are listed, and if it is accepted, then the link has no data
    while `/downstream` is listed, and the count does not change while the token is. -/
structure UsesQuietly (σ : Broker) (linkData : Option Json) (tokenId : CString) (check : TokenCheck) : Prop where
  lost : σ.LosesToken tokenId check → σ.listStream tokenRootNode = none
  shown : σ.AcceptsToken tokenId check → σ.listStream downstream ≠ none → linkData = none
  counted : σ.AcceptsToken tokenId check → σ.listStream (tokenId :: tokenRootNode) ≠ none →
    ∀ c : Int, (σ.metadata (tokenId :: tokenRootNode)).get (cstr "$$count") = some (.integer c) → c ≤ 0

theorem Behind.brokerHandshakeHandleConn (h : Behind ∅ σ) {dsId : CString} {linkData : Option Json}
    {token : Option (CString × TokenCheck)} (hquiet : ∀ t ∈ token, σ.UsesQuietly linkData t.1 t.2) :
    Behind ∅ (σ.brokerHandshakeHandleConn name dsId linkData token) := by
  have hwait := h.linkMoves_none (allocLink_linkMoves h.wf ⟨name, false, none, linkData, .empty⟩)
  unfold Broker.brokerHandshakeHandleConn
  dsimp only
  cases token with
  | none => exact hwait
  | some t =>
    obtain ⟨tokenId, check⟩ := t
    have hq := hquiet (tokenId, check) rfl
    dsimp only
    split
    · rename_i hfound
      obtain ⟨haccepts, heq⟩ := getTokenNode_accepts hfound
      rw [heq]
      exact hwait.useToken (Heap.get_alloc_next _ _) rfl (hq.shown haccepts) (hq.counted haccepts)
    · have hfound := hwait.getTokenNode check hq.lost
      apply hfound.linkMoves_none (freeLink_linkMoves hfound.wf _)
      intro q hq'
      have hold := linkOf_getTokenNode hq'
      obtain ⟨link, hlink, -⟩ := h.wf.links (show σ.linkOf q = some σ.link.next from hold)
      rw [Heap.get_next] at hlink
      cases hlink

/-! ## Rows that are deleted by hand -/

/-- Other keys than `$disconnectedTs` stay when a link closes. -/
theorem metadata_brokerCloseLink {L : LinkId} {ts : CString} (hυ : σ.brokerCloseLink L ts = some υ)
    (hkey : key ≠ cstr "$disconnectedTs") : (υ.metadata q).get key = (σ.metadata q).get key := by
  simp only [brokerCloseLink, Option.bind_eq_bind, Option.bind_eq_some_iff, Option.some.injEq] at hυ
  obtain ⟨link, -, τ, hτ, rfl⟩ := hυ
  have hclosed : τ.metadata q = σ.metadata q := by
    simp only [brokerRemoteDSLinkFree, Option.bind_eq_bind, Option.bind_eq_some_iff] at hτ
    obtain ⟨link, -, hτ⟩ := hτ
    refine foldlM_invariant (fun ρ => ρ.metadata q = σ.metadata q) (fun ρ s _ ρ' hρ hs => ?_) hτ rfl
    refine Eq.trans ?_ hρ
    simp only [requesterStreamClosed, Option.bind_eq_bind, Option.bind_eq_some_iff] at hs
    obtain ⟨stream, -, link, -, dsId, -, hs⟩ := hs
    split at hs
    · cases hs
      show (ρ.dropListStream s stream.node).metadata q = ρ.metadata q
      unfold dropListStream
      split
      · exact metadata_modNode _ (fun n => BrokerNode.setListStream_metadata n none)
      · rfl
    · cases hs
      rfl
  rw [← hclosed, ← show (τ.setLink link.home none).metadata q = τ.metadata q from
    metadata_modNode _ (BrokerNode.modDownstream_metadata (fun _ => rfl))]
  show ((setDownstreamMeta _ _ _ _).metadata q).get key = _
  unfold Broker.metadata
  rw [setDownstreamMeta, get_modNode]
  split
  · rename_i hq
    subst hq
    cases (τ.setLink link.home none).node.get link.home with
    | none => rfl
    | some n =>
      rw [Option.map_some, Option.elim_some, Option.elim_some]
      unfold BrokerNode.modDownstream
      split
      · rfl
      · exact (get_setMember _ _ _ _).trans (if_neg hkey)
  · rfl

/-- `σ` is the broker before a loop that deletes rows of `/downstream`, `τ` the broker in it, and `D` are the names
    whose rows are deleted by now. -/
structure Erasing (σ : Broker) (D : List CString) (τ : Broker) : Prop where
  behind : Behind {e | e.1 = downstream ∧ e.2 ∈ D} τ
  erased : ∀ k ∈ D, ∀ view, τ.views downstream = some view → view k = none
  listStream : ∀ q, τ.listStream q = none ∨ τ.listStream q = σ.listStream q
  metadata : ∀ q, τ.listStream q ≠ none → τ.metadata q = σ.metadata q

theorem Erasing.start (h : Behind ∅ σ) : Erasing σ [] σ where
  behind := h.shrink (fun _ _ hm => hm.elim)
  erased := by simp
  listStream _ := .inr rfl
  metadata _ _ := rfl

/-- The link of a node goes, and its row is deleted. -/
theorem Erasing.step {D : List CString} {ρ : Broker} (hσ : σ.Wf) (h : Erasing σ D τ)
    (hm : LinkMoves {name :: downstream} τ ρ) (hd : ρ.deleteRow (σ.listStream downstream) name = some υ) :
    Erasing σ (name :: D) υ := by
  have hrows : Behind {e | e.1 = downstream ∧ e.2 ∈ name :: D} ρ := by
    refine (h.behind.linkMoves hm).shrink (fun q l hml hnot => ?_)
    rcases hml with ⟨hq, hl⟩ | hml
    · exact absurd ⟨hq, List.mem_cons_of_mem _ hl⟩ hnot
    · obtain ⟨rfl, rfl⟩ := List.cons.inj (show l :: q = name :: downstream from hml)
      exact absurd ⟨rfl, List.mem_cons_self⟩ hnot
  have hlist : ∀ q, ρ.listStream q = none ∨ ρ.listStream q = σ.listStream q := by
    intro q
    rcases hm.lists.listStream q with hn | he
    · exact .inl hn
    · exact he ▸ h.listStream q
  have hmeta : ∀ q, ρ.listStream q ≠ none → ρ.metadata q = σ.metadata q := by
    intro q hq
    refine (hm.metadata q hq).trans (h.metadata q ?_)
    rcases hm.lists.listStream q with hn | he
    · exact absurd hn hq
    · exact he ▸ hq
  have herased : ∀ k ∈ D, ∀ view, ρ.views downstream = some view → view k = none := by
    intro k hk view hv
    rcases hm.lists.views h.behind.wf downstream with hn | he
    · rw [hn] at hv
      cases hv
    · exact h.erased k hk view (he ▸ hv)
  unfold deleteRow at hd
  split at hd
  · rename_i hnone
    cases hd
    -- nobody lists
    refine ⟨hrows, fun k _ view hv => ?_, hlist, hmeta⟩
    have hno : υ.listStream downstream = none := by
      rcases hlist downstream with hn | he
      · exact hn
      · rw [he, hnone]
    rw [hrows.wf.views_eq_none.mpr hno] at hv
    cases hv
  · rename_i s hs
    obtain ⟨st, hst, rfl⟩ := Option.map_eq_some_iff.mp hd
    obtain ⟨st0, -, hst0⟩ := hσ.streams hs
    cases hp : ρ.listStream downstream with
    | none =>
      -- the cache of a list stream that is no longer the one of `/downstream`, nor of any other node
      have hno : ∀ q, ρ.listStream q ≠ some s := by
        intro q hq
        have hσq : σ.listStream q = some s := by
          rcases hlist q with hn | he
          · rw [hn] at hq
            cases hq
          · rw [← he, hq]
        obtain ⟨st1, hst1, hn1⟩ := hσ.streams hσq
        obtain ⟨st2, hst2, hn2⟩ := hσ.streams hs
        cases hst1.symm.trans hst2
        rw [← hn1, hn2, hp] at hq
        cases hq
      have hpatch := hrows.patch_other hno name none
      refine ⟨hpatch, fun k _ view hv => ?_, hlist, hmeta⟩
      rw [hpatch.wf.views_eq_none.mpr (show (ρ.patch s name none).listStream downstream = none from hp)] at hv
      cases hv
    | some s' =>
      obtain rfl : s' = s := by
        rcases hlist downstream with hn | he
        · rw [hn] at hp
          cases hp
        · exact Option.some.inj (hp.symm.trans (he.trans hs))
      refine ⟨hrows.patch hp (fun _ _ hml => .inl hml) (.inr ⟨rfl, List.mem_cons_self⟩), fun k hk view hv => ?_,
        hlist, hmeta⟩
      rw [views_patch hrows.wf hp hst, Function.update_self] at hv
      cases hv
      by_cases hkn : k = name
      · rw [hkn, Function.update_self]
      · rw [Function.update_of_ne hkn]
        refine herased k ((List.mem_cons.mp hk).resolve_left hkn) _ ?_
        rw [views, hp, Option.bind_some, hst, Option.map_some]

/-- The nodes whose rows are deleted leave the map, and no member of the `meta` of `/downstream` has one of their
    names. -/
theorem Erasing.removed {D : List CString} (h : Erasing σ D τ)
    (hkey : σ.listStream downstream ≠ none → ∀ k ∈ D, (σ.metadata downstream).get k = none) :
    Behind ∅ (τ.removeNodes (fun p => D.any (fun name => (name :: downstream).isSuffixOf p))) := by
  have hparent : D.any (fun name => (name :: downstream).isSuffixOf downstream) = false := by
    rw [List.any_eq_false]
    intro name _
    rw [isSuffixOf_tail]
    exact Bool.false_ne_true
  have hgone := h.behind.removeNodes (fun p => D.any (fun name => (name :: downstream).isSuffixOf p))
  refine ⟨hgone.wf, hgone.current.settle (fun q k hm view hv => ?_)⟩
  -- the place is a deleted row of `/downstream`
  have hplace : q = downstream ∧ k ∈ D := by
    rcases hm with hm | ⟨hbelow, hnot⟩
    · exact hm
    · obtain ⟨name, hname, hsuffix⟩ := List.any_eq_true.mp hbelow
      have hq := (List.any_eq_false.mp hnot) name hname
      obtain ⟨rfl, rfl⟩ := below_row hsuffix (Bool.eq_false_of_not_eq_true hq)
      exact ⟨rfl, hname⟩
  obtain ⟨rfl, hk⟩ := hplace
  have hlisted : τ.listStream downstream ≠ none := by
    intro hn
    have hnone : (τ.removeNodes (fun p => D.any (fun name => (name :: downstream).isSuffixOf p))).listStream
        downstream = none := by
      rw [listStream_removeNodes, hn]
      exact ite_self _
    rw [hgone.wf.views_eq_none.mpr hnone] at hv
    cases hv
  have hσlisted : σ.listStream downstream ≠ none := by
    rcases h.listStream downstream with hn | he
    · exact absurd hn hlisted
    · exact he ▸ hlisted
  have hview : τ.views downstream = some view := by
    rw [← hv, views, views, listStream_removeNodes, hparent]
    rfl
  have hany : D.any (fun name => (name :: downstream).isSuffixOf (k :: downstream)) = true :=
    List.any_eq_true.mpr ⟨k, hk, List.isSuffixOf_iff_suffix.mpr (List.suffix_refl _)⟩
  rw [h.erased k hk view hview, source, get_buildListCache, rowAt, get_removeNodes, if_pos hany, metadata_removeNodes hparent, h.metadata _ hlisted, hkey hσlisted k hk]
  rfl

/-- Removing the nodes keeps what `Erasing` says about the other nodes. -/
theorem Erasing.kept {D : List CString} (h : Erasing σ D τ) (q : Path)
    (hl : (τ.removeNodes (fun p => D.any (fun name => (name :: downstream).isSuffixOf p))).listStream q ≠ none) :
    (τ.removeNodes (fun p => D.any (fun name => (name :: downstream).isSuffixOf p))).metadata q = σ.metadata q ∧
      σ.listStream q ≠ none := by
  rw [listStream_removeNodes] at hl
  split at hl
  · exact absurd rfl hl
  · rename_i hnot
    refine ⟨(metadata_removeNodes (Bool.eq_false_of_not_eq_true hnot)).trans (h.metadata q hl), ?_⟩
    rcases h.listStream q with hn | he
    · exact absurd hn hl
    · exact he ▸ hl

theorem Behind.clearConns (h : Behind ∅ σ)
    (hkey : σ.listStream downstream ≠ none → ∀ k ∈ σ.unlinked, (σ.metadata downstream).get k = none)
    (hυ : σ.clearConns = some υ) : Behind ∅ υ := by
  simp only [Broker.clearConns, Option.bind_eq_bind, Option.bind_eq_some_iff, Option.some.injEq] at hυ
  obtain ⟨τ, hτ, rfl⟩ := hυ
  have hloop : ∀ (names D : List CString) (ρ : Broker), Erasing σ D ρ →
      names.foldlM (fun τ name => τ.deleteRow (σ.listStream downstream) name) ρ = some τ →
      ∃ D', Erasing σ D' τ ∧ ∀ k, k ∈ D' ↔ k ∈ D ∨ k ∈ names := by
    intro names
    induction names with
    | nil =>
      intro D ρ hρ hτ
      cases hτ
      exact ⟨D, hρ, by simp⟩
    | cons name names ih =>
      intro D ρ hρ hτ
      rw [List.foldlM_cons] at hτ
      obtain ⟨ρ', hρ', hτ⟩ := Option.bind_eq_some_iff.mp hτ
      obtain ⟨D', hD', hmem⟩ := ih _ ρ' (hρ.step h.wf (.refl hρ.behind.wf) hρ') hτ
      refine ⟨D', hD', fun k => ?_⟩
      rw [hmem, List.mem_cons, List.mem_cons]
      tauto
  obtain ⟨D', hD', hmem⟩ := hloop σ.unlinked [] σ (.start h) hτ
  have hsame : ∀ k, k ∈ D' ↔ k ∈ σ.unlinked := by simpa using hmem
  have hgone : (fun p => D'.any (fun name => (name :: downstream).isSuffixOf p)) =
      (fun p : Path => σ.unlinked.any (fun name => (name :: downstream).isSuffixOf p)) := by
    funext p
    rw [Bool.eq_iff_iff, List.any_eq_true, List.any_eq_true]
    simp only [hsame]
  have hfinal := hD'.removed (fun hl k hk => hkey hl k ((hsame k).mp hk))
  rw [hgone] at hfinal
  exact hfinal

/-- The nodes whose link came with a token, which `clear_managed_link` removes. -/
def Managed (σ : Broker) (token k : CString) : Prop :=
  ((σ.metadata (k :: downstream)).get (cstr "$$token")).bind Json.stringValue = some token

theorem closeOwn (h : σ.Wf) {ts : CString} (hυ : σ.brokerCloseLinkIfAny (σ.linkOf p) ts = some υ) :
    LinkMoves {p} σ υ ∧ ∀ q key, key ≠ cstr "$disconnectedTs" → (υ.metadata q).get key = (σ.metadata q).get key := by
  cases hp : σ.linkOf p with
  | none =>
    rw [hp] at hυ
    cases hυ
    exact ⟨.refl h, fun _ _ _ => rfl⟩
  | some L =>
    rw [hp] at hυ
    obtain ⟨link, τ, hlink, -, hm, -, -, -⟩ := brokerCloseLink_linkMoves h hυ
    obtain ⟨link', hlink', hhome⟩ := h.links hp
    cases hlink.symm.trans hlink'
    exact ⟨hhome ▸ hm, fun q key hkey => metadata_brokerCloseLink hυ hkey⟩

/-- The loop of `clear_managed_link`: every node it meets with the token loses its link and its row. -/
theorem Erasing.clearManaged (hσ : σ.Wf) {token ts : CString} {gone : List CString} {names D : List CString}
    (h : Erasing σ D τ)
    (htoken : ∀ k, (τ.metadata (k :: downstream)).get (cstr "$$token") =
      (σ.metadata (k :: downstream)).get (cstr "$$token"))
    (hυ : clearManagedLoop (σ.listStream downstream) token ts names τ = some (υ, gone)) :
    ∃ D', Erasing σ D' υ ∧ (∀ k, k ∈ D' ↔ k ∈ D ∨ k ∈ gone) ∧ ∀ k ∈ gone, σ.Managed token k := by
  induction names generalizing τ D gone with
  | nil =>
    cases hυ
    exact ⟨D, h, by simp, by simp⟩
  | cons name names ih =>
    unfold clearManagedLoop at hυ
    dsimp only at hυ
    split at hυ
    · rename_i hmanaged
      simp only [Option.bind_eq_bind, Option.bind_eq_some_iff, Option.some.injEq, Prod.mk.injEq, Prod.exists] at hυ
      obtain ⟨ρ, hρ, ρ', hρ', υ', gone', hloop, rfl, rfl⟩ := hυ
      obtain ⟨hclose, hmeta⟩ := closeOwn h.behind.wf hρ
      have hm : LinkMoves {name :: downstream} τ (ρ.setLink (name :: downstream) none) :=
        hclose.trans (setLink_linkMoves (hclose.wf h.behind.wf) (by simp))
      have hstep := h.step hσ hm hρ'
      have hnode : ρ'.node = (ρ.setLink (name :: downstream) none).node := by
        unfold deleteRow at hρ'
        split at hρ'
        · cases hρ'
          rfl
        · obtain ⟨-, -, rfl⟩ := Option.map_eq_some_iff.mp hρ'
          rfl
      have htoken' : ∀ k, (ρ'.metadata (k :: downstream)).get (cstr "$$token") =
          (σ.metadata (k :: downstream)).get (cstr "$$token") := by
        intro k
        have hset : ρ'.metadata (k :: downstream) = ρ.metadata (k :: downstream) := by
          rw [show ρ'.metadata (k :: downstream) = (ρ.setLink (name :: downstream) none).metadata (k :: downstream) by
            rw [Broker.metadata, Broker.metadata, hnode]]
          exact metadata_modNode _ (BrokerNode.modDownstream_metadata (fun _ => rfl))
        rw [hset, hmeta _ _ (by decide), htoken]
      obtain ⟨D', hD', hmem, hall⟩ := ih hstep htoken' hloop
      refine ⟨D', hD', fun k => ?_, fun k hk => ?_⟩
      · rw [hmem, List.mem_cons, List.mem_cons]
        tauto
      · rcases List.mem_cons.mp hk with rfl | hk
        · rw [Managed, ← htoken]
          exact hmanaged
        · exact hall k hk
    · exact ih h htoken hυ

theorem Behind.clearManagedLink (h : Behind ∅ σ) {token ts : CString}
    (hkey : σ.listStream downstream ≠ none → ∀ k, σ.Managed token k → (σ.metadata downstream).get k = none)
    (hυ : σ.clearManagedLink token ts = some υ) :
    Behind ∅ υ ∧ ∀ q, υ.listStream q ≠ none → υ.metadata q = σ.metadata q ∧ σ.listStream q ≠ none := by
  simp only [Broker.clearManagedLink, Option.bind_eq_bind, Option.bind_eq_some_iff, Option.some.injEq,
    Prod.exists] at hυ
  obtain ⟨τ, gone, hτ, rfl⟩ := hυ
  obtain ⟨D, hD, hmem, hall⟩ := (Erasing.start h).clearManaged h.wf (fun _ => rfl) hτ
  have hsame : ∀ k, k ∈ D ↔ k ∈ gone := by simpa using hmem
  have hgone : (fun p => D.any (fun name => (name :: downstream).isSuffixOf p)) =
      (fun p : Path => gone.any (fun name => (name :: downstream).isSuffixOf p)) := by
    funext p
    rw [Bool.eq_iff_iff, List.any_eq_true, List.any_eq_true]
    simp only [hsame]
  have hfinal := hD.removed (fun hl k hk => hkey hl k (hall k ((hsame k).mp hk)))
  have hkept := hD.kept
  rw [hgone] at hfinal hkept
  exact ⟨hfinal, hkept⟩

/-- A token whose row and whose links' rows can be deleted. -/
structure DeletesQuietly (σ : Broker) (name : CString) : Prop where
  own : σ.listStream tokenRootNode ≠ none → (σ.metadata tokenRootNode).get name = none
  managed : isTrue ((σ.metadata (name :: tokenRootNode)).get (cstr "$$managed")) = true →
    σ.listStream downstream ≠ none → ∀ k, σ.Managed name k → (σ.metadata downstream).get k = none

theorem Behind.deleteTokenInvoke (h : Behind ∅ σ) {ts : CString} (hquiet : σ.DeletesQuietly name)
    (hυ : σ.deleteTokenInvoke name ts = some υ) : Behind ∅ υ := by
  simp only [Broker.deleteTokenInvoke, Option.bind_eq_bind, Option.bind_eq_some_iff] at hυ
  obtain ⟨τ, hτ, hυ⟩ := hυ
  unfold clearIfManaged at hτ
  split at hτ
  · rename_i hmanaged
    obtain ⟨hτb, hkept⟩ := h.clearManagedLink (hquiet.managed hmanaged) hτ
    refine hτb.brokerNodeFree (fun _ _ hm => hm.elim) (fun hl => ?_) hυ
    obtain ⟨hmeta, hold⟩ := hkept _ hl
    rw [hmeta]
    exact hquiet.own hold
  · cases hτ
    exact h.brokerNodeFree (fun _ _ hm => hm.elim) hquiet.own hυ

/-! ## Groups, brokers, upstream -/

theorem Behind.updateGroup (h : Behind ∅ σ) {group : Option CString} {ts : CString}
    (hquiet : ∀ L, σ.linkOf (name :: downstream) = some L →
      (σ.setDownstreamMeta (name :: downstream) (cstr "$$group") (group.map Json.string)).ClosesQuietly L)
    (hυ : σ.updateGroup name group ts = some υ) : Behind ∅ υ := by
  unfold Broker.updateGroup at hυ
  dsimp only at hυ
  split at hυ
  · cases hυ
    exact h
  · simp only [Option.bind_eq_bind, Option.bind_eq_some_iff, Option.some.injEq] at hυ
    obtain ⟨τ, hτ, rfl⟩ := hυ
    have hset := setDownstreamMeta_linkMoves (p := name :: downstream) h.wf
      (show cstr "$$group" ∉ topLevelKeys by decide) (group.map Json.string)
    have hclosed : Behind ∅ τ := by
      refine (h.linkMoves_none hset).brokerCloseLinkIfAny (fun L hL => ?_) hτ
      rw [linkOf_setDownstreamMeta] at hL
      exact hquiet L hL
    have hunset := setLink_linkMoves (L := none) (p := name :: downstream) hclosed.wf (by simp)
    -- the link is gone already
    refine hclosed.linkMoves_same hunset (fun k q hk _ => ?_)
    obtain ⟨rfl, rfl⟩ := List.cons.inj (show k :: q = name :: downstream from hk)
    have hgone : τ.linkOf (k :: downstream) = none := by
      cases hp : (σ.setDownstreamMeta (k :: downstream) (cstr "$$group") (group.map Json.string)).linkOf
          (k :: downstream) with
      | none =>
        rw [hp] at hτ
        cases hτ
        exact hp
      | some L =>
        obtain ⟨link, hlink, hhome⟩ := (hset.wf h.wf).links hp
        rw [hp] at hτ
        obtain ⟨link', -, hlink', -, -, -, hnone, -⟩ := brokerCloseLink_linkMoves (hset.wf h.wf) hτ
        cases hlink.symm.trans hlink'
        rw [← hhome]
        exact hnone
    rw [linkDataAt, linkDataAt, linkOf_setLink_self, ite_self, hgone]
    rfl

/-- Any member of a downstream node; its row may be behind then. -/
theorem Behind.setDownstreamMeta (h : Behind E σ) (key : CString) (value : Option Json) :
    Behind (E ∪ {e | e.2 :: e.1 = p}) (σ.setDownstreamMeta p key value) := by
  refine h.move (.of_eq (modNode_stream _) (fun q => .inr (listStream_modNode _
    (BrokerNode.modDownstream_listStream (fun _ hn => hn))))) (fun q L hq => ?_)
    (fun q k hk hq => source_congr ?_ ?_ ?_)
  · rw [linkOf_setDownstreamMeta] at hq
    rw [link_setDownstreamMeta]
    exact h.wf.links hq
  · rw [topAt, topAt, Broker.setDownstreamMeta, get_modNode_ne _ (show k :: q ≠ p from hk)]
  · rw [linkDataAt, linkDataAt, linkOf_setDownstreamMeta, link_setDownstreamMeta]
  · rw [metadata_setDownstreamMeta hq]

theorem Behind.becomesBroker (h : Behind ∅ σ)
    (hquiet : σ.listStream p.tail ≠ none →
      ((σ.metadata p).get (cstr "$is")).bind Json.stringValue = some (cstr "dsa/broker"))
    (hτ : σ.becomesBroker p = some τ) : Behind ∅ τ := by
  simp only [Broker.becomesBroker, Option.bind_eq_bind, Option.bind_eq_some_iff] at hτ
  obtain ⟨node, hnode, hτ⟩ := hτ
  split at hτ
  · cases hτ
  · split at hτ
    · cases hτ
      exact h
    · rename_i hnot
      cases hτ
      apply (h.setDownstreamMeta _ _).shrink
      intro q l hm _
      have hp : l :: q = p := hm.resolve_left id
      have hlist : (σ.setDownstreamMeta p (cstr "$is") (some (.string (cstr "dsa/broker")))).listStream q =
          σ.listStream q := listStream_modNode _ (BrokerNode.modDownstream_listStream (fun _ hn => hn))
      rw [hlist]
      by_contra hl
      apply hnot
      rw [← hp] at hquiet hnode
      have his := hquiet hl
      rw [metadata, hnode] at his
      exact Option.bind_eq_some_iff.mp his

theorem Behind.createUpstreamNode (h : Behind ∅ σ) (name : CString) : Behind ∅ (σ.createUpstreamNode name) := by
  unfold Broker.createUpstreamNode
  split
  · exact h
  · refine (h.brokerInitDownstreamNode upstream name).updateListChild (fun _ hn => ?_)
      (fun _ _ hm => hm.elim)
    rw [Broker.brokerInitDownstreamNode, brokerNodeUpdateChild, node_updateListChild] at hn
    simp at hn

theorem Behind.initUpstreamNode (h : Behind ∅ σ) {dsId : CString}
    (hquiet : σ.listStream upstream ≠ none → σ.linkDataAt (name :: upstream) = none) :
    Behind ∅ (σ.initUpstreamNode name dsId) := by
  have hwait := allocLink_linkMoves h.wf ⟨name, true, some dsId, none, .empty⟩
  have hcreate := (h.linkMoves_none hwait).createUpstreamNode name
  have hold : ((({ σ with link := σ.link.alloc ⟨name, true, some dsId, none, .empty⟩ } : Broker).createUpstreamNode
      name).listStream upstream ≠ none) → (({ σ with link := σ.link.alloc ⟨name, true, some dsId, none, .empty⟩ } :
      Broker).createUpstreamNode name).linkDataAt (name :: upstream) = none := by
    intro hl
    unfold Broker.createUpstreamNode at hl ⊢
    split
    · rename_i hex
      rw [if_pos hex] at hl
      rw [hwait.linkData _ (Set.notMem_empty _)]
      exact hquiet hl
    · -- a new node has no link
      have hno : (Broker.brokerInitDownstreamNode { σ with link := σ.link.alloc ⟨name, true, some dsId, none, .empty⟩ }
          upstream name).linkOf (name :: upstream) = none := by
        rw [linkOf, Broker.brokerInitDownstreamNode, brokerNodeUpdateChild, node_updateListChild]
        simp [BrokerNode.link]
      dsimp only
      rw [linkDataAt, linkOf, node_updateListChild, ← linkOf, hno]
      rfl
  have hlink : (({ σ with link := σ.link.alloc ⟨name, true, some dsId, none, .empty⟩ } : Broker).createUpstreamNode
      name).link.get σ.link.next = some ⟨name, true, some dsId, none, .empty⟩ := by
    have heq : (({ σ with link := σ.link.alloc ⟨name, true, some dsId, none, .empty⟩ } : Broker).createUpstreamNode
        name).link = σ.link.alloc ⟨name, true, some dsId, none, .empty⟩ := by
      unfold Broker.createUpstreamNode
      split
      · rfl
      · dsimp only
        rw [link_updateListChild]
        exact link_updateListChild _
    rw [heq, Heap.get_alloc_next]
  unfold Broker.initUpstreamNode
  dsimp only
  generalize ({ σ with link := σ.link.alloc ⟨name, true, some dsId, none, .empty⟩ } : Broker).createUpstreamNode
    name = τ at hcreate hold hlink ⊢
  have hdsId := setDsId_linkMoves (p := name :: upstream) hcreate.wf (some dsId)
  have hlink' : (τ.setDsId (name :: upstream) (some dsId)).link.get σ.link.next =
      some ⟨name, true, some dsId, none, .empty⟩ := by rw [link_setDsId, hlink]
  have hconnect := connect_linkMoves (hdsId.wf hcreate.wf) _ hlink' (p := name :: upstream) rfl
  refine hcreate.linkMoves_same ((hdsId.mono (Set.empty_subset _)).trans hconnect) (fun k q hk hq => ?_)
  obtain ⟨rfl, rfl⟩ := List.cons.inj (show k :: q = name :: upstream from hk)
  rw [hold, linkDataAt_connect, hlink']
  · exact ite_self _
  · intro hn
    rcases (hdsId.lists.trans hconnect.lists).listStream upstream with hn' | he
    · exact hq hn'
    · exact hq (he.trans hn)

theorem Behind.addUpstreamInvoke (h : Behind ∅ σ) : Behind ∅ (σ.addUpstreamInvoke name) := by
  unfold Broker.addUpstreamInvoke
  split
  · exact h
  · exact ((h.brokerNodeAdd ‹_›).addAll _).createUpstreamNode _

theorem Behind.deleteUpstreamInvoke (h : Behind ∅ σ) {poll : Option LinkId} {ts : CString}
    (hquiet : ∀ L, poll = some L → σ.ClosesQuietly L)
    (hkey : σ.listStream sysUpstream ≠ none → (σ.metadata sysUpstream).get name = none)
    (hυ : σ.deleteUpstreamInvoke name poll ts = some υ) : Behind ∅ υ := by
  simp only [Broker.deleteUpstreamInvoke, Option.bind_eq_bind, Option.bind_eq_some_iff] at hυ
  obtain ⟨τ, hτ, hυ⟩ := hυ
  refine (h.brokerCloseLinkIfAny hquiet hτ).brokerNodeFree (fun _ _ hm => hm.elim) (fun hl => ?_) hυ
  cases poll with
  | none =>
    cases hτ
    exact hkey hl
  | some L =>
    obtain ⟨link, -, -, -, hm, -, -, -⟩ := brokerCloseLink_linkMoves h.wf hτ
    rw [hm.metadata _ hl]
    apply hkey
    rcases hm.lists.listStream sysUpstream with hn | he
    · exact absurd hn hl
    · exact he ▸ hl

end Broker

/-! ## Every run -/

/-- The events that patch every cache they move. A row is only moved unpatched where it is the same again: the
    `$linkData` of a link that comes or goes, the profile of a node, the count of a token. A row is only deleted where
    no member of the `meta` has its name, and an attribute only written where no child has its name. -/
def Event.Kept (σ : Broker) : Event → Prop
  | .setAttribute p name _ => σ.listStream p ≠ none → σ.node.get (name :: p) = none
  | .deleteNode parent name => σ.listStream parent ≠ none → (σ.metadata parent).get name = none
  | .conn _ _ linkData token => ∀ t ∈ token, σ.UsesQuietly linkData t.1 t.2
  | .ws L _ _ => σ.ReplacesQuietly L
  | .closeLink L _ => σ.ClosesQuietly L
  | .deleteToken name _ => σ.DeletesQuietly name
  | .clearConns => σ.listStream downstream ≠ none → ∀ k ∈ σ.unlinked, (σ.metadata downstream).get k = none
  | .updateGroup name group _ => ∀ L, σ.linkOf (name :: downstream) = some L →
      (σ.setDownstreamMeta (name :: downstream) (cstr "$$group") (group.map Json.string)).ClosesQuietly L
  | .becomesBroker p => σ.listStream p.tail ≠ none →
      ((σ.metadata p).get (cstr "$is")).bind Json.stringValue = some (cstr "dsa/broker")
  | .upstreamLink name _ => σ.listStream upstream ≠ none → σ.linkDataAt (name :: upstream) = none
  | .deleteUpstream name poll _ => (∀ L, poll = some L → σ.ClosesQuietly L) ∧
      (σ.listStream sysUpstream ≠ none → (σ.metadata sysUpstream).get name = none)
  | _ => True

theorem Start.behind (h : Start σ) : σ.Behind ∅ := by
  have hlist : ∀ q, σ.listStream q = none := by
    intro q
    unfold Broker.listStream
    cases hq : σ.node.get q with
    | none => rfl
    | some n => exact (h q n hq).1
  refine ⟨⟨fun {q s} hq => ?_, fun {q L} hq => ?_⟩, fun q view hv => ?_⟩
  · rw [hlist] at hq
    cases hq
  · unfold Broker.linkOf at hq
    cases hn : σ.node.get q with
    | none =>
      rw [hn] at hq
      cases hq
    | some n =>
      rw [hn, Option.bind_some, (h q n hn).2] at hq
      cases hq
  · rw [Broker.views, hlist] at hv
    cases hv

/-- One event that patches what it moves. -/
theorem step_behind {e : Event} (h : σ.Behind ∅) (hk : e.Kept σ) (hs : step σ e = some τ) : τ.Behind ∅ := by
  cases e with
  | list L p rid => exact h.brokerListSelf hs
  | close L rid => exact h.brokerMsgHandleClose hs
  | fileOther L rid =>
    cases hs
    exact h.linkMoves_none (Broker.fileOther_linkMoves h.wf L rid)
  | setAttribute p name value => exact h.setAttribute hk hs
  | addNode p name =>
    obtain ⟨-, hs⟩ := Option.ite_none_right_eq_some.mp hs
    cases hs
    exact h.onAddNodeInvoked
  | createDynamic names =>
    obtain ⟨-, hs⟩ := Option.ite_none_right_eq_some.mp hs
    cases hs
    exact h.brokerCreateDynamicDataNode names
  | deleteNode parent name =>
    obtain ⟨-, hs⟩ := Option.ite_none_right_eq_some.mp hs
    exact h.onDeleteNodeInvoked hk hs
  | conn name dsId linkData token =>
    cases hs
    exact h.brokerHandshakeHandleConn hk
  | ws L dsId ts => exact h.brokerHandshakeHandleWs hk hs
  | closeLink L ts => exact h.brokerCloseLink hk hs
  | addToken name metadata =>
    cases hs
    exact h.addTokenInvoke metadata
  | deleteToken name ts => exact h.deleteTokenInvoke hk hs
  | clearConns => exact h.clearConns hk hs
  | updateGroup name group ts => exact h.updateGroup hk hs
  | becomesBroker p => exact h.becomesBroker hk hs
  | upstreamLink name dsId =>
    cases hs
    exact h.initUpstreamNode hk
  | addUpstream name =>
    cases hs
    exact h.addUpstreamInvoke
  | deleteUpstream name poll ts => exact h.deleteUpstreamInvoke hk.1 hk.2 hs

/-- In every run of such events, the cache of every local node that is listed is what `build_list_cache` would make of
    the node now: the same keys with the same values. -/
theorem local_list_caches_coherent (h : Reach step (fun σ e => e.Kept σ) Start σ) {node : BrokerNode}
    {s : ListStreamId} (hnode : σ.node.get p = some node) (hs : node.listStream = some s) :
    ∃ st, σ.stream.get s = some st ∧ ∀ key, st.updatesCache.get key = (σ.buildListCache p).get key := by
  have hbehind : σ.Behind ∅ :=
    h.invariant (Broker.Behind ∅) (fun _ hstart => hstart.behind) (fun _ _ _ ih hk hstep => step_behind ih hk hstep)
  have hlist : σ.listStream p = some s := by rw [Broker.listStream, hnode, Option.bind_some, hs]
  obtain ⟨st, hst, -⟩ := hbehind.wf.streams hlist
  refine ⟨st, hst, fun key => hbehind.current p _ ?_ key (Set.notMem_empty _)⟩
  rw [Broker.views, hlist, Option.bind_some, hst, Option.map_some]

/-- Requests, and links that come for the first time. -/
def Event.plain (σ : Broker) : Event → Bool
  | .list _ _ _ | .addNode _ _ => true
  | .conn _ _ _ token => token.isNone
  | .ws L _ _ => (σ.link.get L).all (fun link => (σ.node.get (link.name :: downstream)).isNone)
  | _ => false

theorem Event.plain_kept {e : Event} (h : e.plain σ = true) : e.Kept σ := by
  cases e with
  | list L p rid => trivial
  | addNode p name => trivial
  | conn name dsId linkData token =>
    intro t ht
    rw [Option.isNone_iff_eq_none.mp h] at ht
    cases ht
  | ws L dsId ts =>
    intro link τ hlink hex
    have hnone : (σ.node.get (link.name :: downstream)).isNone = true := by simpa [Event.plain, hlink] using h
    rw [Option.isNone_iff_eq_none.mp hnone] at hex
    cases hex
  | _ => cases h

theorem brokerInit_start : Start brokerInit := by
  intro p node hnode
  have hmem : node ∈ brokerInit.node.values := AssocMap.mem_values.mpr ⟨p, hnode⟩
  have hall : ∀ n ∈ brokerInit.node.values, n.listStream = none ∧ n.link = none := by decide
  exact hall node hmem

/-- A requester lists `/downstream`, and then a link with `linkData` connects: its row is in the cache. -/
theorem local_list_caches_coherent_connected : ∃ (σ : Broker) (st : BrokerListStream),
    σ.stream.get 0 = some st ∧ (st.updatesCache.get (cstr "x")).isSome = true ∧
      ∀ key, st.updatesCache.get key = (σ.buildListCache downstream).get key := by
  obtain ⟨σ, hreach, hcheck⟩ := Reach.of_guarded step (fun σ e => e.plain σ = true) (some brokerInit)
    [.conn (cstr "r") (cstr "r0") none none, .ws 0 (cstr "r0") (cstr "t"), .list 0 downstream 1,
      .conn (cstr "x") (cstr "x0") (some (.object [])) none, .ws 1 (cstr "x0") (cstr "t")]
    (fun (σ : Broker) => σ.listStream downstream = some 0 &&
      (σ.stream.get 0).any (fun st => (st.updatesCache.get (cstr "x")).isSome)) (by decide)
  have hkept : Reach step (fun σ e => e.Kept σ) Start σ :=
    (hreach.mono (fun _ _ => Event.plain_kept)).of_init (fun s hs => Option.some.inj hs ▸ brokerInit_start)
  rw [Bool.and_eq_true, decide_eq_true_eq, Option.any_eq_true] at hcheck
  obtain ⟨hlist, st, hst, hrow⟩ := hcheck
  obtain ⟨node, hnode, hs⟩ := Option.bind_eq_some_iff.mp hlist
  obtain ⟨st', hst', hall⟩ := local_list_caches_coherent hkept hnode hs
  cases hst.symm.trans hst'
  exact ⟨σ, st, hst, hrow, hall⟩

/-- The link disconnects, and its row keeps the `$linkData`. -/
theorem local_list_cache_stale : ∃ (σ : Broker) (node : BrokerNode) (st : BrokerListStream),
    Reach step (fun _ _ => True) Start σ ∧ σ.node.get downstream = some node ∧ node.listStream = some 0 ∧
      σ.stream.get 0 = some st ∧ st.updatesCache.get (cstr "x") ≠ (σ.buildListCache downstream).get (cstr "x") := by
  obtain ⟨σ, hreach, hcheck⟩ := Reach.of_eval step (some brokerInit)
    [.conn (cstr "r") (cstr "r0") none none, .ws 0 (cstr "r0") (cstr "t"), .list 0 downstream 1,
      .conn (cstr "x") (cstr "x0") (some (.object [])) none, .ws 1 (cstr "x0") (cstr "t"), .closeLink 1 (cstr "t")]
    (fun (σ : Broker) => σ.listStream downstream = some 0 && (σ.stream.get 0).any (fun st =>
      ((st.updatesCache.get (cstr "x")).bind (fun row => row.get (cstr "$linkData"))).isSome) &&
      (((σ.buildListCache downstream).get (cstr "x")).bind (fun row => row.get (cstr "$linkData"))).isNone)
    (by decide)
  rw [Bool.and_eq_true, Bool.and_eq_true, decide_eq_true_eq, Option.any_eq_true] at hcheck
  obtain ⟨⟨hlist, st, hst, hcached⟩, hbuilt⟩ := hcheck
  obtain ⟨node, hnode, hs⟩ := Option.bind_eq_some_iff.mp hlist
  refine ⟨σ, node, st, hreach.of_init (fun s hs => Option.some.inj hs ▸ brokerInit_start), hnode, hs, hst, ?_⟩
  intro heq
  rw [heq, Option.isNone_iff_eq_none.mp hbuilt] at hcached
  cases hcached

end DSLink.LocalList
