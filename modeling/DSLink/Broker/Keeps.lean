import DSLink.Broker.ListOwner

/-!
# `Broker.Keeps` — what the functions of the registry leave as it is

Most functions of the registry store nothing under a rid: tables lose entries, streams are freed together with the
entries they know, no stream changes its owner and no link comes or goes. `Keeps` says so, without a condition on
the state but that the tables of the links outside `X` are unlocked.

## Contents
- `Holds`, `Invokes`, `Owns`, `Keeps`.
- One lemma for each part of a state that changes and for each function.
-/

namespace DSLink

namespace Registry

variable {σ σ' τ : Registry} {X : LinkId → Prop} {L : LinkId} {rid : Nat} {s : StreamId}

/-- The entry under `rid` in the table of `L`. -/
def Holds (σ : Registry) (L : LinkId) (rid : Nat) (x : Option StreamId) : Prop :=
  ∃ link, σ.link.get L = some link ∧ link.requesterStreams.get rid = some x

/-- `s` is an invoke stream that is known under `rid` of `L`. -/
def Invokes (σ : Registry) (L : LinkId) (rid : Nat) (s : StreamId) : Prop :=
  ∃ st, σ.stream.get s = some (.invoke st) ∧ st.requester = L ∧ st.requesterRid = rid

/-- The node and the remote path of a list stream. -/
def BrokerStream.owner : BrokerStream → Option (NodeRef × CString)
  | .list st => some (st.node, st.remotePath)
  | .invoke _ => none

/-- `s` is, or was, a list stream for `k`. -/
def Owns (σ : Registry) (s : StreamId) (k : NodeRef × CString) : Prop :=
  s < σ.stream.next ∧ ∀ x, σ.stream.get s = some x → x.owner = some k

/-- Nothing is stored under a rid, streams keep their owners, and invoke streams go only together with their entry,
    but for links in `X`. -/
structure Keeps (X : LinkId → Prop) (σ σ' : Registry) : Prop where
  link : ∀ L link', ¬X L → σ'.link.get L = some link' → ∃ link, σ.link.get L = some link ∧ link'.node = link.node ∧
    link'.requesterLocked = link.requesterLocked
  alive : ∀ L link, ¬X L → σ.link.get L = some link → ∃ link', σ'.link.get L = some link'
  holds : ∀ L rid x, ¬X L → σ'.Holds L rid x → σ.Holds L rid x
  invokes : ∀ L rid s, ¬X L → σ'.Holds L rid (some s) → σ.Invokes L rid s → σ'.Invokes L rid s
  next : σ.stream.next ≤ σ'.stream.next
  owner : ∀ s x', s < σ.stream.next → σ'.stream.get s = some x' → ∃ x, σ.stream.get s = some x ∧ x'.owner = x.owner
  owned : ∀ d p s, σ'.ownTable (.downstream d, p) = some s →
    σ.ownTable (.downstream d, p) = some s ∨ σ'.Owns s (.downstream d, p)
  nodeLink : ∀ d L, (σ'.dnode.get d).bind DownstreamNode.link = some L →
    (σ.dnode.get d).bind DownstreamNode.link = some L

theorem Keeps.owns (h : Keeps X σ σ') {k : NodeRef × CString} (hs : σ.Owns s k) : σ'.Owns s k := by
  refine ⟨Nat.lt_of_lt_of_le hs.1 h.next, fun x' hx' => ?_⟩
  obtain ⟨x, hx, hsame⟩ := h.owner s x' hs.1 hx'
  rw [hsame]
  exact hs.2 x hx

theorem Keeps.refl (X : LinkId → Prop) (σ : Registry) : Keeps X σ σ where
  link _ link' _ hL := ⟨link', hL, rfl, rfl⟩
  alive _ link _ hL := ⟨link, hL⟩
  holds _ _ _ _ h := h
  invokes _ _ _ _ _ h := h
  next := Nat.le_refl _
  owner _ x' _ hx := ⟨x', hx, rfl⟩
  owned _ _ _ h := .inl h
  nodeLink _ _ h := h

theorem Keeps.trans (h : Keeps X σ τ) (h' : Keeps X τ σ') : Keeps X σ σ' where
  link := by
    intro L link' hX hL
    obtain ⟨link, hlink, hnode, hlock⟩ := h'.link L link' hX hL
    obtain ⟨link0, hlink0, hnode0, hlock0⟩ := h.link L link hX hlink
    exact ⟨link0, hlink0, hnode.trans hnode0, hlock.trans hlock0⟩
  alive := by
    intro L link hX hL
    obtain ⟨link', hlink'⟩ := h.alive L link hX hL
    exact h'.alive L link' hX hlink'
  holds L rid s hX hs := h.holds L rid s hX (h'.holds L rid s hX hs)
  invokes L rid s hX hs hi := h'.invokes L rid s hX hs (h.invokes L rid s hX (h'.holds L rid (some s) hX hs) hi)
  next := Nat.le_trans h.next h'.next
  owner := by
    intro s x' hs hx'
    obtain ⟨x, hx, hsame⟩ := h'.owner s x' (Nat.lt_of_lt_of_le hs h.next) hx'
    obtain ⟨x0, hx0, hsame0⟩ := h.owner s x hs hx
    exact ⟨x0, hx0, hsame.trans hsame0⟩
  owned := by
    intro d p s hs
    rcases h'.owned d p s hs with hs | hs
    · rcases h.owned d p s hs with hs | hs
      · exact .inl hs
      · exact .inr (h'.owns hs)
    · exact .inr hs
  nodeLink d L hd := h.nodeLink d L (h'.nodeLink d L hd)

theorem Keeps.mono {Y : LinkId → Prop} (h : Keeps X σ σ') (hXY : ∀ L, X L → Y L) : Keeps Y σ σ' :=
  ⟨fun L link' hY => h.link L link' (fun hX => hY (hXY L hX)), fun L link hY => h.alive L link (fun hX => hY (hXY L hX)),
    fun L rid s hY => h.holds L rid s (fun hX => hY (hXY L hX)),
    fun L rid s hY => h.invokes L rid s (fun hX => hY (hXY L hX)), h.next, h.owner, h.owned, h.nodeLink⟩

/-- The requester tables that are not in `X` are unlocked. -/
def Unlocked (σ : Registry) (X : LinkId → Prop) : Prop :=
  ∀ L link, ¬X L → σ.link.get L = some link → link.requesterLocked = false

theorem Unlocked.keep (h : σ.Unlocked X) (hk : Keeps X σ σ') : σ'.Unlocked X := by
  intro L link' hX hL
  obtain ⟨link, hlink, -, hlock⟩ := hk.link L link' hX hL
  rw [hlock]
  exact h L link hX hlink

/-- List streams are where their owner has them, and a node knows its own link. -/
structure Seated (σ : Registry) : Prop where
  owns : ∀ d p s, σ.ownTable (.downstream d, p) = some s → σ.Owns s (.downstream d, p)
  link : ∀ d L, (σ.dnode.get d).bind DownstreamNode.link = some L → ∃ link, σ.link.get L = some link ∧ link.node = d

theorem Seated.keep (h : σ.Seated) (hk : Keeps (fun _ => False) σ σ') : σ'.Seated where
  owns := by
    intro d p s hs
    rcases hk.owned d p s hs with hold | hnew
    · exact hk.owns (h.owns d p s hold)
    · exact hnew
  link := by
    intro d L hd
    obtain ⟨link, hL, hnode⟩ := h.link d L (hk.nodeLink d L hd)
    obtain ⟨link', hL'⟩ := hk.alive L link id hL
    obtain ⟨link0, hL0, hnode', -⟩ := hk.link L link' id hL'
    cases hL.symm.trans hL0
    exact ⟨link', hL', hnode'.trans hnode⟩

/-! ## Parts of a state -/

/-- Tables of links only lose entries. -/
theorem keeps_of_links (hstream : σ'.stream = σ.stream) (hdnode : σ'.dnode = σ.dnode)
    (halive : ∀ L link, ¬X L → σ.link.get L = some link → ∃ link', σ'.link.get L = some link')
    (hlink : ∀ L link', ¬X L → σ'.link.get L = some link' → ∃ link, σ.link.get L = some link ∧
      link'.node = link.node ∧ link'.requesterLocked = link.requesterLocked ∧
      ∀ r x, link'.requesterStreams.get r = some x → link.requesterStreams.get r = some x) :
    Keeps X σ σ' where
  link := by
    intro L link' hX hL
    obtain ⟨link, hlink, hnode, hlock, -⟩ := hlink L link' hX hL
    exact ⟨link, hlink, hnode, hlock⟩
  alive := halive
  holds := by
    rintro L rid s hX ⟨link', hL, hs⟩
    obtain ⟨link, hlink, -, -, hless⟩ := hlink L link' hX hL
    exact ⟨link, hlink, hless rid s hs⟩
  invokes := by
    intro L rid s _ _ hi
    unfold Invokes
    rw [hstream]
    exact hi
  next := by rw [hstream]
  owner := by
    intro s x' _ hx'
    rw [hstream] at hx'
    exact ⟨x', hx', rfl⟩
  owned := by
    intro d p s hs
    simp only [ownTable, hdnode] at hs
    exact .inl hs
  nodeLink d L hd := by
    rw [hdnode] at hd
    exact hd

/-- No stream changes its owner, and no invoke stream goes while a table has it. -/
theorem keeps_of_streams (hlink : σ'.link = σ.link) (hdnode : σ'.dnode = σ.dnode)
    (hnext : σ.stream.next ≤ σ'.stream.next)
    (howner : ∀ s x', s < σ.stream.next → σ'.stream.get s = some x' →
      ∃ x, σ.stream.get s = some x ∧ x'.owner = x.owner)
    (hinvokes : ∀ L rid s, ¬X L → σ.Holds L rid (some s) → σ.Invokes L rid s → σ'.Invokes L rid s) : Keeps X σ σ' where
  link := by
    intro L link' _ hL
    rw [hlink] at hL
    exact ⟨link', hL, rfl, rfl⟩
  alive := by
    intro L link _ hL
    rw [hlink]
    exact ⟨link, hL⟩
  holds := by
    rintro L rid s _ ⟨link, hL, hs⟩
    rw [hlink] at hL
    exact ⟨link, hL, hs⟩
  invokes := by
    rintro L rid s hX ⟨link, hL, hs⟩ hi
    rw [hlink] at hL
    exact hinvokes L rid s hX ⟨link, hL, hs⟩ hi
  next := hnext
  owner := howner
  owned := by
    intro d p s hs
    simp only [ownTable, hdnode] at hs
    exact .inl hs
  nodeLink d L hd := by
    rw [hdnode] at hd
    exact hd

/-- Nodes get no link, and take no list stream that is not theirs. -/
theorem keeps_of_nodes (hlink : σ'.link = σ.link) (hstream : σ'.stream = σ.stream)
    (hnode : ∀ d L, (σ'.dnode.get d).bind DownstreamNode.link = some L →
      (σ.dnode.get d).bind DownstreamNode.link = some L)
    (howned : ∀ d p s, σ'.ownTable (.downstream d, p) = some s →
      σ.ownTable (.downstream d, p) = some s ∨ σ.Owns s (.downstream d, p)) : Keeps X σ σ' where
  link := by
    intro L link' _ hL
    rw [hlink] at hL
    exact ⟨link', hL, rfl, rfl⟩
  alive := by
    intro L link _ hL
    rw [hlink]
    exact ⟨link, hL⟩
  holds := by
    rintro L rid s _ ⟨link, hL, hs⟩
    rw [hlink] at hL
    exact ⟨link, hL, hs⟩
  invokes := by
    intro L rid s _ _ hi
    unfold Invokes
    rw [hstream]
    exact hi
  next := by rw [hstream]
  owner := by
    intro s x' _ hx'
    rw [hstream] at hx'
    exact ⟨x', hx', rfl⟩
  owned := by
    intro d p s hs
    unfold Owns
    rw [hstream]
    exact howned d p s hs
  nodeLink := hnode

/-- Listeners and local nodes are no part of it. -/
theorem keeps_same (hlink : σ'.link = σ.link) (hstream : σ'.stream = σ.stream) (hdnode : σ'.dnode = σ.dnode) :
    Keeps X σ σ' := by
  refine keeps_of_nodes hlink hstream (fun d L hd => by rwa [hdnode] at hd) ?_
  intro d p s hs
  simp only [ownTable, hdnode] at hs
  exact .inl hs

/-- A downstream node gets no link and no list stream. -/
theorem keeps_modDnode {d : DownId} {f : DownstreamNode → DownstreamNode}
    (hf : ∀ node, (∀ L, (f node).link = some L → node.link = some L) ∧
      ∀ p s, (f node).listStreams.get p = some s → node.listStreams.get p = some s) : Keeps X σ (σ.modDnode d f) := by
  refine keeps_of_nodes (by rfl) (by rfl) ?_ ?_
  · intro e L he
    have he : ((σ.dnode.modify d f).get e).bind DownstreamNode.link = some L := he
    rw [Heap.get_modify] at he
    split at he
    · rename_i hed
      obtain ⟨node, hnode, hlink⟩ := Option.bind_eq_some_iff.mp he
      obtain ⟨node', hnode', rfl⟩ := Option.map_eq_some_iff.mp hnode
      rw [hed, hnode']
      exact (hf node').1 L hlink
    · exact he
  · intro e p s hs
    have hs : ((σ.dnode.modify d f).get e).bind (fun node => node.listStreams.get p) = some s := hs
    rw [Heap.get_modify] at hs
    split at hs
    · rename_i he
      obtain ⟨node, hnode, hs⟩ := Option.bind_eq_some_iff.mp hs
      obtain ⟨node', hnode', rfl⟩ := Option.map_eq_some_iff.mp hnode
      refine .inl ?_
      show (σ.dnode.get e).bind _ = some s
      rw [he, hnode']
      exact (hf node').2 p s hs
    · exact .inl hs

theorem keeps_modLink {f : RemoteDSLink → RemoteDSLink}
    (hf : ∀ link, ¬X L → (f link).node = link.node ∧ (f link).requesterLocked = link.requesterLocked ∧
      ∀ r x, (f link).requesterStreams.get r = some x → link.requesterStreams.get r = some x) :
    Keeps X σ (σ.modLink L f) := by
  refine keeps_of_links (by rfl) (by rfl) ?_ ?_
  · intro L' link _ hL
    by_cases he : L' = L
    · refine ⟨f link, ?_⟩
      show (σ.link.modify L f).get L' = _
      rw [he, Heap.get_modify_self, ← he, hL]
      rfl
    · exact ⟨link, (Heap.get_modify_ne he).trans hL⟩
  · intro L' link' hX hL
    have hL : (σ.link.modify L f).get L' = some link' := hL
    rw [Heap.get_modify] at hL
    split at hL
    · rename_i he
      obtain ⟨link, hlink, rfl⟩ := Option.map_eq_some_iff.mp hL
      refine ⟨link, by rw [he]; exact hlink, hf link (by rw [← he]; exact hX)⟩
    · exact ⟨link', hL, rfl, rfl, fun _ _ h => h⟩

theorem setResponder_keeps (x : Option StreamId) : Keeps X σ (σ.setResponder L rid x) :=
  keeps_modLink (fun _ _ => ⟨rfl, rfl, fun _ _ h => h⟩)

theorem removeRequester_keeps (hs : σ.removeRequester L rid = some σ') : Keeps X σ σ' := by
  obtain ⟨link, -, ⟨-, rfl⟩ | ⟨-, rfl⟩⟩ := removeRequester_cases hs
  · exact .refl _ _
  · apply keeps_modLink
    intro link _
    refine ⟨rfl, rfl, fun r s h => ?_⟩
    rw [AssocMap.get_erase] at h
    split at h
    · cases h
    · exact h

theorem removeResponder_keeps (hs : σ.removeResponder L rid = some σ') : Keeps X σ σ' := by
  obtain ⟨link, -, ⟨-, rfl⟩ | ⟨-, rfl⟩⟩ := removeResponder_cases hs
  · exact .refl _ _
  · exact keeps_modLink (fun _ _ => ⟨rfl, rfl, fun _ _ h => h⟩)

/-- A list stream changes and keeps its owner. -/
theorem setList_keeps {st st' : BrokerListStream} (hst : σ.stream.get s = some (.list st))
    (hown : (st'.node, st'.remotePath) = (st.node, st.remotePath)) :
    Keeps X σ (σ.setStream s (.list st')) := by
  refine keeps_of_streams (by rfl) (by rfl) (by exact Nat.le_refl _) ?_ ?_
  · intro t x' _ ht
    have ht : (σ.stream.put s _).get t = some _ := ht
    rw [Heap.get_put] at ht
    split at ht
    · rename_i he
      obtain ⟨_, _, rfl⟩ := Option.map_eq_some_iff.mp ht
      exact ⟨.list st, by rw [he]; exact hst, congrArg some hown⟩
    · exact ⟨x', ht, rfl⟩
  · rintro L rid t - - ⟨st1, ht, hkey⟩
    refine ⟨st1, ?_, hkey⟩
    show (σ.stream.put s _).get t = _
    rw [Heap.get_put_ne (by rintro rfl; cases hst.symm.trans ht)]
    exact ht

/-- An invoke stream changes and keeps its key. -/
theorem setInvoke_keeps {st : BrokerInvokeStream} {call : InvokeCall} (hst : σ.stream.get s = some (.invoke st)) :
    Keeps X σ (σ.setStream s (.invoke { st with call := call })) := by
  refine keeps_of_streams (by rfl) (by rfl) (by exact Nat.le_refl _) ?_ ?_
  · intro t x' _ ht
    have ht : (σ.stream.put s _).get t = some _ := ht
    rw [Heap.get_put] at ht
    split at ht
    · rename_i he
      obtain ⟨_, _, rfl⟩ := Option.map_eq_some_iff.mp ht
      exact ⟨.invoke st, by rw [he]; exact hst, rfl⟩
    · exact ⟨x', ht, rfl⟩
  · rintro L rid t - - ⟨st1, ht, hkey⟩
    by_cases he : t = s
    · subst he
      cases hst.symm.trans ht
      exact ⟨{ st with call := call }, Heap.get_put_self hst, hkey⟩
    · exact ⟨st1, (Heap.get_put_ne he).trans ht, hkey⟩

theorem alloc_keeps (st : BrokerStream) : Keeps X σ { σ with stream := σ.stream.alloc st } := by
  refine keeps_of_streams (by rfl) (by rfl) (by exact Nat.le_succ _) ?_ ?_
  · intro s x' hlt hs
    have hs : (σ.stream.alloc st).get s = some _ := hs
    rw [Heap.get_alloc, if_neg (Nat.ne_of_lt hlt)] at hs
    exact ⟨x', hs, rfl⟩
  · rintro L rid s - - ⟨st', hs, hkey⟩
    exact ⟨st', Heap.get_alloc_of_get hs, hkey⟩

/-- A stream is freed that is no invoke stream, or that no table holds under its own rid. -/
theorem free_keeps (freed : List (List (CString × LinkId × Nat)))
    (hs : ∀ L rid, ¬X L → σ.Holds L rid (some s) → ¬σ.Invokes L rid s) :
    Keeps X σ { σ with stream := σ.stream.free s, freed := freed } := by
  refine keeps_of_streams (by rfl) (by rfl) (by exact Nat.le_refl _) ?_ ?_
  · intro t x' _ ht
    exact ⟨x', (Heap.get_free_eq_some.mp ht).2, rfl⟩
  · rintro L rid t hX hheld hi
    have hne : t ≠ s := by
      rintro rfl
      exact hs L rid hX hheld hi
    obtain ⟨st, hst, hkey⟩ := hi
    exact ⟨st, (Heap.get_free_ne hne).trans hst, hkey⟩

/-- A new node has no link and no list stream. -/
theorem newDownstream_keeps {rid : Nat} :
    Keeps X σ { σ with dnode := σ.dnode.alloc ⟨none, rid, .empty⟩ } := by
  refine keeps_of_nodes (by rfl) (by rfl) ?_ ?_
  · intro d L hd
    have hd : ((σ.dnode.alloc _).get d).bind DownstreamNode.link = some L := hd
    rw [Heap.get_alloc] at hd
    split at hd
    · cases hd
    · exact hd
  · intro d p s hs
    have hs : ((σ.dnode.alloc _).get d).bind (fun node => node.listStreams.get p) = some s := hs
    rw [Heap.get_alloc] at hs
    split at hs
    · cases hs
    · exact .inl hs

theorem freeDownstream_keeps {d : DownId} : Keeps X σ { σ with dnode := σ.dnode.free d } := by
  refine keeps_of_nodes (by rfl) (by rfl) ?_ ?_
  · intro e L he
    obtain ⟨node, hnode, hL⟩ := Option.bind_eq_some_iff.mp he
    exact Option.bind_eq_some_iff.mpr ⟨node, (Heap.get_free_eq_some.mp hnode).2, hL⟩
  · intro e p s hs
    obtain ⟨node, hnode, hp⟩ := Option.bind_eq_some_iff.mp hs
    exact .inl (Option.bind_eq_some_iff.mpr ⟨node, (Heap.get_free_eq_some.mp hnode).2, hp⟩)

/-- A new list stream comes into the table of its node. -/
theorem newRemoteList_keeps {d : DownId} {path : CString} {respRid : Nat} : Keeps X σ
    ({ σ with stream := σ.stream.alloc (.list ⟨.downstream d, path, respRid, .empty⟩) }.modDnode d
      (fun node => { node with listStreams := node.listStreams.set path σ.stream.next })) := by
  refine (alloc_keeps (.list ⟨.downstream d, path, respRid, .empty⟩)).trans (keeps_of_nodes (by rfl) (by rfl) ?_ ?_)
  · intro e L he
    have he : ((σ.dnode.modify d _).get e).bind DownstreamNode.link = some L := he
    rw [Heap.get_modify] at he
    split at he
    · rename_i hed
      obtain ⟨node, hnode, hL⟩ := Option.bind_eq_some_iff.mp he
      obtain ⟨node', hnode', rfl⟩ := Option.map_eq_some_iff.mp hnode
      exact Option.bind_eq_some_iff.mpr ⟨node', by rw [hed]; exact hnode', hL⟩
    · exact he
  · intro e p s hs
    have hs : ((σ.dnode.modify d _).get e).bind (fun node => node.listStreams.get p) = some s := hs
    rw [Heap.get_modify] at hs
    split at hs
    · rename_i hed
      obtain ⟨node, hnode, hs⟩ := Option.bind_eq_some_iff.mp hs
      obtain ⟨node', hnode', rfl⟩ := Option.map_eq_some_iff.mp hnode
      have hs : (node'.listStreams.set path σ.stream.next).get p = some s := hs
      rw [AssocMap.get_set] at hs
      split at hs
      · rename_i hp
        obtain rfl := Option.some.inj hs
        refine .inr ⟨Nat.lt_succ_self _, fun x hx => ?_⟩
        obtain rfl := Option.some.inj ((Heap.get_alloc_next σ.stream _).symm.trans hx)
        rw [hp, hed]
        rfl
      · exact .inl (Option.bind_eq_some_iff.mpr ⟨node', by rw [hed]; exact hnode', hs⟩)
    · exact .inl hs

/-! ## Functions -/

theorem dropListResponder_keeps {d : DownId} (hs : σ.dropListResponder d rid = some σ') : Keeps X σ σ' := by
  simp only [dropListResponder, Option.bind_eq_bind, Option.bind_eq_some_iff] at hs
  obtain ⟨node, -, hs⟩ := hs
  split at hs
  · exact removeResponder_keeps hs
  · cases hs
    exact .refl _ _

theorem dropResponder_keeps {st : BrokerStream} (hs : σ.dropResponder st = some σ') : Keeps X σ σ' := by
  unfold dropResponder at hs
  split at hs
  · split at hs
    · exact dropListResponder_keeps hs
    · obtain ⟨_, -, rfl⟩ := Option.map_eq_some_iff.mp hs
      exact .refl _ _
  · split at hs
    · exact removeResponder_keeps hs
    · cases hs
      exact .refl _ _

theorem brokerListReqClosed_keeps (hs : σ.brokerListReqClosed s L = some σ') : Keeps X σ σ' := by
  simp only [brokerListReqClosed, Option.bind_eq_bind, Option.bind_eq_some_iff] at hs
  obtain ⟨st, hst, link, -, dsId, -, hs⟩ := hs
  have hset : Keeps X σ (σ.setStream s (.list { st with requesterLinks := st.requesterLinks.erase dsId })) :=
    setList_keeps (listStream_eq_some.mp hst) rfl
  split at hs
  · cases hs
    exact hset
  · split at hs
    · simp only [Option.bind_eq_some_iff] at hs
      obtain ⟨τ, hτ, hs⟩ := hs
      obtain rfl := Option.some.inj hs
      refine (hset.trans (dropListResponder_keeps hτ)).trans (keeps_modDnode (fun node => ⟨fun _ h => h, fun p s hs => ?_⟩))
      rw [AssocMap.get_erase] at hs
      split at hs
      · cases hs
      · exact hs
    · simp only [Option.bind_eq_some_iff] at hs
      obtain ⟨-, -, hs⟩ := hs
      obtain rfl := Option.some.inj hs
      exact hset.trans (keeps_same rfl rfl rfl)

theorem removeRequesters_keeps (keys : List Key) (hs : keys.foldlM (fun σ p => σ.removeRequester p.1 p.2) σ = some σ') :
    Keeps X σ σ' := by
  refine foldlM_invariant (fun τ => Keeps X σ τ) ?_ hs (.refl _ _)
  exact fun _ _ _ _ hk hround => hk.trans (removeRequester_keeps hround)

/-- A stream goes with the entry under its own rid. -/
theorem brokerStreamFree_keeps (hu : σ.Unlocked X) (hs : σ.brokerStreamFree s = some σ') : Keeps X σ σ' := by
  simp only [brokerStreamFree, Option.bind_eq_bind, Option.bind_eq_some_iff] at hs
  obtain ⟨stream, hst, hs⟩ := hs
  split at hs
  · rename_i st
    simp only [Option.bind_eq_some_iff] at hs
    obtain ⟨τ, hτ, υ, hυ, hs⟩ := hs
    obtain rfl := Option.some.inj hs
    have hk : Keeps X σ υ := (removeRequesters_keeps _ hτ).trans (dropResponder_keeps hυ)
    have hυst : υ.stream.get s = some (.list st) := by
      have hτstream : τ.stream = σ.stream := by
        refine foldlM_invariant (fun τ => τ.stream = σ.stream) ?_ hτ rfl
        exact fun _ _ _ _ hsame hround => (removeRequester_sameOwner hround).2.trans hsame
      rw [(dropResponder_sameOwner hυ).2, hτstream]
      exact hst
    refine hk.trans (free_keeps _ ?_)
    rintro L rid - - ⟨st', hst', -⟩
    cases hυst.symm.trans hst'
  · rename_i st
    simp only [Option.bind_eq_some_iff] at hs
    obtain ⟨τ, hτ, υ, hυ, hs⟩ := hs
    obtain rfl := Option.some.inj hs
    have hτυ : Keeps X τ υ := dropResponder_keeps hυ
    refine ((removeRequester_keeps hτ).trans hτυ).trans (free_keeps _ ?_)
    rintro L rid hX hheld ⟨st', hst', rfl, rfl⟩
    rw [(dropResponder_sameOwner hυ).2, (removeRequester_sameOwner hτ).2, hst] at hst'
    cases hst'
    -- the entry under its own rid was removed
    obtain ⟨link', hlink', hget⟩ := hτυ.holds _ _ (some s) hX hheld
    obtain ⟨link, hlink, ⟨hlock, -⟩ | ⟨-, rfl⟩⟩ := removeRequester_cases hτ
    · rw [hu _ link hX hlink] at hlock
      cases hlock
    · have hlink' : (σ.link.modify st.requester _).get st.requester = some link' := hlink'
      rw [Heap.get_modify_self, hlink] at hlink'
      obtain rfl := Option.some.inj hlink'
      have hget : (link.requesterStreams.erase st.requesterRid).get st.requesterRid = some (some s) := hget
      rw [AssocMap.get_erase, if_pos rfl] at hget
      cases hget

theorem queryDestroy_keeps {data : ParsedQuery} (hs : σ.queryDestroy data = some σ') : Keeps X σ σ' := by
  simp only [queryDestroy, Option.bind_eq_bind, Option.bind_eq_some_iff] at hs
  obtain ⟨τ, hτ, hs⟩ := hs
  obtain ⟨listener, rfl, -⟩ := freeListeners_spec hτ
  obtain ⟨listener', rfl, -⟩ := freeListeners_spec hs
  exact keeps_same rfl rfl rfl

theorem reqCloseCb_keeps (hs : σ.reqCloseCb s L = some σ') : Keeps X σ σ' := by
  simp only [reqCloseCb, Option.bind_eq_bind, Option.bind_eq_some_iff] at hs
  obtain ⟨stream, -, hs⟩ := hs
  split at hs
  · exact brokerListReqClosed_keeps hs
  · split at hs
    · obtain ⟨-, -, rfl⟩ := Option.map_eq_some_iff.mp hs
      exact .refl _ _
    · exact queryDestroy_keeps hs
    · cases hs
      exact .refl _ _

theorem requesterStreamClosed_keeps (hu : σ.Unlocked X) (hs : σ.requesterStreamClosed s L = some σ') :
    Keeps X σ σ' := by
  simp only [requesterStreamClosed, Option.bind_eq_bind, Option.bind_eq_some_iff] at hs
  obtain ⟨τ, hτ, stream, -, hs⟩ := hs
  have hk : Keeps X σ τ := reqCloseCb_keeps hτ
  split at hs
  · split at hs
    · cases hs
      exact hk
    · exact hk.trans (brokerStreamFree_keeps (hu.keep hk) hs)
  · exact hk.trans (brokerStreamFree_keeps (hu.keep hk) hs)

theorem responderStreamClosed_keeps (hu : σ.Unlocked X) (hs : σ.responderStreamClosed s = some σ') : Keeps X σ σ' := by
  simp only [responderStreamClosed, Option.bind_eq_bind, Option.bind_eq_some_iff] at hs
  obtain ⟨stream, -, hs⟩ := hs
  split at hs
  · cases hs
    exact .refl _ _
  · split at hs
    · simp only [Option.bind_eq_some_iff] at hs
      obtain ⟨-, -, hs⟩ := hs
      exact brokerStreamFree_keeps hu hs
    · cases hs
      exact .refl _ _

theorem addListener_keeps {visit : NodeId × ListenerKind} (hs : addListener s σ visit = some σ') : Keeps X σ σ' := by
  simp only [addListener, Option.bind_eq_bind, Option.bind_eq_some_iff] at hs
  obtain ⟨node, -, st, hst, hs⟩ := hs
  split at hs
  · obtain rfl := Option.some.inj hs
    exact (setInvoke_keeps (invokeStream_eq_some.mp hst)).trans (keeps_same rfl rfl rfl)
  · cases hs

theorem addListeners_keeps {visits : List (NodeId × ListenerKind)} (hs : visits.foldlM (addListener s) σ = some σ') :
    Keeps X σ σ' := by
  refine foldlM_invariant (fun τ => Keeps X σ τ) ?_ hs (.refl _ _)
  exact fun _ _ _ _ hk hround => hk.trans (addListener_keeps hround)

/-! ## Other streams -/

theorem brokerListReqClosed_others (hs : σ.brokerListReqClosed s L = some σ') {t : StreamId} (ht : t ≠ s) :
    σ'.stream.get t = σ.stream.get t := by
  simp only [brokerListReqClosed, Option.bind_eq_bind, Option.bind_eq_some_iff] at hs
  obtain ⟨st, -, link, -, dsId, -, hs⟩ := hs
  split at hs
  · cases hs
    exact Heap.get_put_ne ht
  · split at hs
    · simp only [Option.bind_eq_some_iff] at hs
      obtain ⟨τ, hτ, hs⟩ := hs
      obtain rfl := Option.some.inj hs
      show τ.stream.get t = _
      rw [(dropListResponder_sameOwner hτ).2.1]
      exact Heap.get_put_ne ht
    · simp only [Option.bind_eq_some_iff] at hs
      obtain ⟨-, -, hs⟩ := hs
      obtain rfl := Option.some.inj hs
      exact Heap.get_put_ne ht

theorem reqCloseCb_others (hs : σ.reqCloseCb s L = some σ') {t : StreamId} (ht : t ≠ s) :
    σ'.stream.get t = σ.stream.get t := by
  simp only [reqCloseCb, Option.bind_eq_bind, Option.bind_eq_some_iff] at hs
  obtain ⟨stream, -, hs⟩ := hs
  split at hs
  · exact brokerListReqClosed_others hs ht
  · split at hs
    · obtain ⟨-, -, rfl⟩ := Option.map_eq_some_iff.mp hs
      rfl
    · rw [(freeListeners_sameOwner hs).2]
    · cases hs
      rfl

theorem brokerStreamFree_others (hs : σ.brokerStreamFree s = some σ') {t : StreamId} (ht : t ≠ s) :
    σ'.stream.get t = σ.stream.get t := by
  simp only [brokerStreamFree, Option.bind_eq_bind, Option.bind_eq_some_iff] at hs
  obtain ⟨stream, -, hs⟩ := hs
  split at hs
  · simp only [Option.bind_eq_some_iff] at hs
    obtain ⟨τ, hτ, υ, hυ, hs⟩ := hs
    obtain rfl := Option.some.inj hs
    have hτstream : τ.stream = σ.stream := by
      refine foldlM_invariant (fun τ => τ.stream = σ.stream) ?_ hτ rfl
      exact fun _ _ _ _ hsame hround => (removeRequester_sameOwner hround).2.trans hsame
    refine (Heap.get_free_ne ht).trans ?_
    rw [(dropResponder_sameOwner hυ).2, hτstream]
  · simp only [Option.bind_eq_some_iff] at hs
    obtain ⟨τ, hτ, υ, hυ, hs⟩ := hs
    obtain rfl := Option.some.inj hs
    refine (Heap.get_free_ne ht).trans ?_
    rw [(dropResponder_sameOwner hυ).2, (removeRequester_sameOwner hτ).2]

theorem takeRequester_keeps {old : Option (Option StreamId)} (hs : σ.takeRequester L rid = some (τ, old)) :
    Keeps X σ τ ∧ τ.stream = σ.stream ∧ ∀ x, old = some x → σ.Holds L rid x := by
  simp only [takeRequester, Option.bind_eq_bind, Option.bind_eq_some_iff] at hs
  obtain ⟨link, hL, hs⟩ := hs
  split at hs
  · cases hs
    exact ⟨.refl _ _, rfl, fun s hc => by cases hc⟩
  · cases hs
    refine ⟨keeps_modLink (fun link _ => ⟨rfl, rfl, fun r s h => ?_⟩), rfl, fun s hold => ⟨link, hL, hold⟩⟩
    rw [AssocMap.get_erase] at h
    split at h
    · cases h
    · exact h

theorem closeOld_keeps {old : Option (Option StreamId)} (hu : σ.Unlocked X) (hs : σ.closeOld L old = some σ') :
    Keeps X σ σ' ∧ ∀ t, (∀ s, old = some (some s) → t ≠ s) → σ'.stream.get t = σ.stream.get t := by
  unfold closeOld at hs
  split at hs
  · rename_i data
    simp only [Option.bind_eq_bind, Option.bind_eq_some_iff] at hs
    obtain ⟨s, rfl, τ, hτ, hs⟩ := hs
    have hτk : Keeps X σ τ := reqCloseCb_keeps hτ
    refine ⟨hτk.trans (brokerStreamFree_keeps (hu.keep hτk) hs), fun t ht => ?_⟩
    rw [brokerStreamFree_others hs (ht s rfl), reqCloseCb_others hτ (ht s rfl)]
  · cases hs
    exact ⟨.refl _ _, fun _ _ => rfl⟩

/-! ## A link goes -/

/-- A link that closes is the only one that loses anything. -/
theorem brokerRemoteDslinkFree_keeps (hu : σ.Unlocked (fun _ => False)) (hs : σ.brokerRemoteDslinkFree L = some σ') :
    Keeps (· = L) σ σ' ∧ σ'.link.get L = none := by
  simp only [brokerRemoteDslinkFree, Option.bind_eq_bind, Option.bind_eq_some_iff] at hs
  obtain ⟨link, hL, τ, hτ, link', hL', υ, hυ, hs⟩ := hs
  obtain rfl := Option.some.inj hs
  have hlock : Keeps (· = L) σ (σ.modLink L (fun link => { link with requesterLocked := true })) :=
    keeps_modLink (fun _ hne => absurd rfl hne)
  have hfirst : Keeps (· = L) σ τ := by
    refine foldlM_invariant (fun τ => Keeps (· = L) σ τ) ?_ hτ hlock
    intro ρ entry _ ρ' hk hround
    simp only [closeRequesterEntry, Option.bind_eq_bind, Option.bind_eq_some_iff] at hround
    obtain ⟨s, -, ω, hω, hround⟩ := hround
    obtain rfl := Option.some.inj hround
    have huρ : ρ.Unlocked (· = L) := Unlocked.keep (fun M link _ hM => hu M link id hM) hk
    refine (hk.trans (requesterStreamClosed_keeps huρ hω)).trans ?_
    exact keeps_modLink (fun _ hne => absurd rfl hne)
  have hlock' : Keeps (· = L) τ (τ.modLink L (fun link => { link with responderLocked := true })) :=
    keeps_modLink (fun _ hne => absurd rfl hne)
  have hsecond : Keeps (· = L) σ υ := by
    refine foldlM_invariant (fun τ => Keeps (· = L) σ τ) ?_ hυ (hfirst.trans hlock')
    intro ρ entry _ ρ' hk hround
    simp only [closeResponderEntry, Option.bind_eq_bind, Option.bind_eq_some_iff] at hround
    obtain ⟨s, -, ω, hω, hround⟩ := hround
    obtain rfl := Option.some.inj hround
    have huρ : ρ.Unlocked (· = L) := Unlocked.keep (fun M link _ hM => hu M link id hM) hk
    exact (hk.trans (responderStreamClosed_keeps huρ hω)).trans (setResponder_keeps _)
  refine ⟨hsecond.trans (keeps_of_links (by rfl) (by rfl) ?_ ?_), Heap.get_free_self _ _⟩
  · intro M link hne hM
    exact ⟨link, (Heap.get_free_ne hne).trans hM⟩
  · intro M link' _ hM
    exact ⟨link', (Heap.get_free_eq_some.mp hM).2, rfl, rfl, fun _ _ h => h⟩

theorem brokerCloseLink_keeps (hu : σ.Unlocked (fun _ => False)) (hs : σ.brokerCloseLink L = some σ') :
    Keeps (· = L) σ σ' ∧ σ'.link.get L = none ∧
      ∀ link ∈ σ.link.get L, (σ'.dnode.get link.node).bind DownstreamNode.link = none := by
  simp only [brokerCloseLink, Option.bind_eq_bind, Option.bind_eq_some_iff] at hs
  obtain ⟨link, hL, τ, hτ, hs⟩ := hs
  obtain rfl := Option.some.inj hs
  obtain ⟨hτk, hgone⟩ := brokerRemoteDslinkFree_keeps hu hτ
  refine ⟨hτk.trans (keeps_modDnode (fun node => ⟨fun M hM => (by cases hM), fun _ _ h => h⟩)), hgone, ?_⟩
  intro link' hL'
  cases hL.symm.trans hL'
  show ((τ.dnode.modify link.node _).get link.node).bind _ = none
  rw [Heap.get_modify_self]
  cases τ.dnode.get link.node <;> rfl

/-- No other node loses its link. -/
theorem Seated.closed (h : σ.Seated) (hu : σ.Unlocked (fun _ => False)) (hs : σ.brokerCloseLink L = some σ') :
    σ'.Seated := by
  obtain ⟨hk, hgone, hnode⟩ := brokerCloseLink_keeps hu hs
  refine ⟨?_, ?_⟩
  · intro d p s hs
    rcases hk.owned d p s hs with hold | hnew
    · exact hk.owns (h.owns d p s hold)
    · exact hnew
  · intro d M hd
    obtain ⟨link, hM, hback⟩ := h.link d M (hk.nodeLink d M hd)
    have hne : M ≠ L := by
      rintro rfl
      have hnone := hnode link hM
      rw [hback, hd] at hnone
      cases hnone
    obtain ⟨link', hM'⟩ := hk.alive M link hne hM
    obtain ⟨link0, hM0, hnode', -⟩ := hk.link M link' hne hM'
    cases hM.symm.trans hM0
    exact ⟨link', hM', hnode'.trans hback⟩

end Registry

end DSLink
