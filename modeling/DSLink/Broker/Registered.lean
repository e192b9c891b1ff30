import DSLink.Lib.CrossIndex
import DSLink.Broker.Registry

/-!
# `Broker.Registered` — streams and the tables that hold them

A stream names the links that use it, with their rids: a list stream in `requester_links` and in
`responder_rid`, an invoke stream in its fields. The tables of these links hold the stream under these rids, and
the node of a list stream points to it. Each of the three pairs is a cross index (`Lib.CrossIndex`).

## Contents
- `reqNames`/`reqTable`, `respNames`/`respTable`, `ownNames`/`ownTable`, and `Book`, the invariant.
- What one stream takes with it when it is closed: `reqCloseCb_book`, `brokerStreamFree_book`.
- `brokerCloseLink_registered`, a link with all its entries.
-/

namespace DSLink

namespace Registry

open CrossIndex

/-! ## The three cross indexes -/

/-- A link and a rid on it. -/
abbrev Key := LinkId × Nat

/-- The links and rids that use a stream as requesters. -/
def BrokerStream.requesters : BrokerStream → Key → Prop
  | .list st, k => ∃ dsId, st.requesterLinks.get dsId = some k
  | .invoke st, k => (st.requester, st.requesterRid) = k

/-- The link of a downstream node, until its responder table is locked. -/
def openLink (σ : Registry) (d : DownId) : Option LinkId := do
  let node ← σ.dnode.get d
  let L ← node.link
  let link ← σ.link.get L
  if link.responderLocked then none else some L

/-- The link and the rid on which a stream is answered. -/
def responders (σ : Registry) : BrokerStream → Key → Prop
  | .list st, k => ∃ d, st.node = .downstream d ∧ σ.openLink d = some k.1 ∧ st.responderRid = k.2
  | .invoke st, k => st.call = .remote k.1 k.2

def reqNames (σ : Registry) (s : StreamId) (k : Key) : Prop := ∃ st, σ.stream.get s = some st ∧ st.requesters k

def respNames (σ : Registry) (s : StreamId) (k : Key) : Prop := ∃ st, σ.stream.get s = some st ∧ σ.responders st k

/-- The node of a list stream, with the remote path. -/
def ownNames (σ : Registry) (s : StreamId) (k : NodeRef × CString) : Prop :=
  ∃ st, σ.stream.get s = some (.list st) ∧ (st.node, st.remotePath) = k

def reqTable (σ : Registry) (k : Key) : Option StreamId :=
  (σ.link.get k.1).bind (fun link => (link.requesterStreams.get k.2).join)

def respTable (σ : Registry) (k : Key) : Option StreamId :=
  (σ.link.get k.1).bind (fun link => (link.responderStreams.get k.2).join)

/-- `list_stream` of a local node, and the entry of `list_streams`. -/
def ownTable (σ : Registry) (k : NodeRef × CString) : Option StreamId :=
  match k.1 with
  | .regular n => if k.2 = [] then (σ.node.get n).bind (fun node => node.listStream) else none
  | .downstream d => (σ.dnode.get d).bind (fun node => node.listStreams.get k.2)

/-- A stream that was freed. -/
def Dead (σ : Registry) (s : StreamId) : Prop := s < σ.stream.next ∧ σ.stream.get s = none

/-- What the streams and the tables know of each other. `X` and `O` are the pairs whose entry may be missing for a
    requester and for the others, `E` the requester entries that may be left over. -/
structure Book (σ : Registry) (X E : StreamId → Key → Prop) (O : StreamId → Prop) : Prop where
  requester : FiledBut σ.reqNames σ.reqTable X
  requested : ListedBut σ.reqNames σ.reqTable E
  responder : FiledBut σ.respNames σ.respTable (fun s _ => O s)
  owner : FiledBut σ.ownNames σ.ownTable (fun s _ => O s)
  owned : ListedBut σ.ownNames σ.ownTable (fun s _ => σ.Dead s)
  answered : ∀ s k, σ.respTable k = some s → s < σ.stream.next ∧
    ∀ st, σ.stream.get s = some (.invoke st) → st.call = .remote k.1 k.2
  dsId : ∀ s st dsId k, σ.stream.get s = some (.list st) → st.requesterLinks.get dsId = some k →
    ∃ link, σ.link.get k.1 = some link ∧ link.dsId = some dsId
  nodeLink : ∀ d node L, σ.dnode.get d = some node → node.link = some L →
    ∃ link, σ.link.get L = some link ∧ link.node = d
  linkNode : ∀ L link, σ.link.get L = some link →
    ∃ node, σ.dnode.get link.node = some node ∧ node.link = some L
  listeners : ∀ id listener at', σ.listener.get id = some listener → listener.list = some at' →
    ∃ st data path, σ.stream.get listener.stream = some (.invoke st) ∧ st.call = .query data ∧
      (data.listeners at'.2).get path = some id
  entered : ∀ s st data kind path id, σ.stream.get s = some (.invoke st) → st.call = .query data →
    (data.listeners kind).get path = some id → id < σ.listener.next

/-- Only the tables of links in `P` are locked. -/
def UnlockedBut (σ : Registry) (P : LinkId → Prop) : Prop :=
  ∀ L link, σ.link.get L = some link → ¬P L → link.requesterLocked = false ∧ link.responderLocked = false

/-! ## How the parts of the state enter -/

section Views

variable {σ : Registry} {L : LinkId} {s : StreamId}

theorem reqTable_modLink (f : RemoteDSLink → RemoteDSLink) (k : Key) : (σ.modLink L f).reqTable k =
    if k.1 = L then (σ.link.get L).bind (fun link => ((f link).requesterStreams.get k.2).join) else σ.reqTable k := by
  unfold reqTable modLink
  rw [Heap.get_modify]
  split
  · rename_i h
    rw [Option.bind_map]
    rfl
  · rfl

theorem respTable_modLink (f : RemoteDSLink → RemoteDSLink) (k : Key) : (σ.modLink L f).respTable k =
    if k.1 = L then (σ.link.get L).bind (fun link => ((f link).responderStreams.get k.2).join) else σ.respTable k := by
  unfold respTable modLink
  rw [Heap.get_modify]
  split
  · rw [Option.bind_map]
    rfl
  · rfl

theorem reqTable_same {f : RemoteDSLink → RemoteDSLink} (hf : ∀ link, (f link).requesterStreams = link.requesterStreams) :
    (σ.modLink L f).reqTable = σ.reqTable := by
  funext k
  rw [reqTable_modLink]
  split
  · rename_i hk
    simp only [hf, reqTable, hk]
  · rfl

theorem respTable_same {f : RemoteDSLink → RemoteDSLink} (hf : ∀ link, (f link).responderStreams = link.responderStreams) :
    (σ.modLink L f).respTable = σ.respTable := by
  funext k
  rw [respTable_modLink]
  split
  · rename_i hk
    simp only [hf, respTable, hk]
  · rfl

/-- Erasing an entry of a table as an update. -/
theorem reqTable_erase {r : Nat} {f : RemoteDSLink → RemoteDSLink}
    (hf : ∀ link, (f link).requesterStreams = link.requesterStreams.erase r) :
    (σ.modLink L f).reqTable = Function.update σ.reqTable (L, r) none := by
  funext k
  obtain ⟨l, q⟩ := k
  rw [reqTable_modLink]
  by_cases hl : l = L
  · subst hl
    by_cases hr : q = r
    · subst hr
      rw [Function.update_self]
      cases σ.link.get l <;> simp [hf]
    · rw [Function.update_of_ne (by simpa using hr)]
      cases hlink : σ.link.get l <;> simp [reqTable, hlink, hf, AssocMap.get_erase_ne hr]
  · rw [Function.update_of_ne (by simp [hl]), if_neg hl]

theorem respTable_erase {r : Nat} {f : RemoteDSLink → RemoteDSLink}
    (hf : ∀ link, (f link).responderStreams = link.responderStreams.erase r) :
    (σ.modLink L f).respTable = Function.update σ.respTable (L, r) none := by
  funext k
  obtain ⟨l, q⟩ := k
  rw [respTable_modLink]
  by_cases hl : l = L
  · subst hl
    by_cases hr : q = r
    · subst hr
      rw [Function.update_self]
      cases σ.link.get l <;> simp [hf]
    · rw [Function.update_of_ne (by simpa using hr)]
      cases hlink : σ.link.get l <;> simp [respTable, hlink, hf, AssocMap.get_erase_ne hr]
  · rw [Function.update_of_ne (by simp [hl]), if_neg hl]

/-- Setting an entry of a live table as an update. -/
theorem reqTable_set {r : Nat} {s : Option StreamId} {link : RemoteDSLink} (hL : σ.link.get L = some link) :
    (σ.setRequester L r s).reqTable = Function.update σ.reqTable (L, r) s := by
  funext k
  obtain ⟨l, q⟩ := k
  unfold setRequester
  rw [reqTable_modLink]
  by_cases hl : l = L
  · subst hl
    by_cases hr : q = r
    · subst hr
      simp [hL]
    · rw [Function.update_of_ne (by simpa using hr)]
      simp [reqTable, hL, AssocMap.get_set_ne hr]
  · rw [Function.update_of_ne (by simp [hl]), if_neg hl]

theorem respTable_set {r : Nat} {s : Option StreamId} {link : RemoteDSLink} (hL : σ.link.get L = some link) :
    (σ.setResponder L r s).respTable = Function.update σ.respTable (L, r) s := by
  funext k
  obtain ⟨l, q⟩ := k
  unfold setResponder
  rw [respTable_modLink]
  by_cases hl : l = L
  · subst hl
    by_cases hr : q = r
    · subst hr
      simp [hL]
    · rw [Function.update_of_ne (by simpa using hr)]
      simp [respTable, hL, AssocMap.get_set_ne hr]
  · rw [Function.update_of_ne (by simp [hl]), if_neg hl]

/-- An entry of a table of links that keep their locks. -/
theorem openLink_congr {σ' : Registry} (hd : ∀ d, (σ'.dnode.get d).map DownstreamNode.link =
      (σ.dnode.get d).map DownstreamNode.link)
    (hl : ∀ L, (σ'.link.get L).map RemoteDSLink.responderLocked = (σ.link.get L).map RemoteDSLink.responderLocked) :
    σ'.openLink = σ.openLink := by
  funext d
  have hopen : ∀ τ : Registry, τ.openLink d = ((τ.dnode.get d).map DownstreamNode.link).bind (fun l => l.bind (fun L =>
      ((τ.link.get L).map RemoteDSLink.responderLocked).bind (fun locked => if locked then none else some L))) := by
    intro τ
    simp [openLink, Option.bind_map]
  rw [hopen, hopen, hd]
  simp only [hl]

end Views

/-! ## What closing a stream may touch -/

/-- A link that only lost entries, none of them from a locked table. -/
structure RemoteDSLink.Shrinks (link link' : RemoteDSLink) : Prop where
  dsId : link'.dsId = link.dsId
  node : link'.node = link.node
  requesterLocked : link'.requesterLocked = link.requesterLocked
  responderLocked : link'.responderLocked = link.responderLocked
  requesterKept : link.requesterLocked = true → link'.requesterStreams = link.requesterStreams
  responderKept : link.responderLocked = true → link'.responderStreams = link.responderStreams
  requesterLess : ∀ r, link'.requesterStreams.get r = link.requesterStreams.get r ∨ link'.requesterStreams.get r = none
  responderLess : ∀ r, link'.responderStreams.get r = link.responderStreams.get r ∨ link'.responderStreams.get r = none

/-- Only `s` changes; the links lose entries and the nodes keep their links. -/
structure Closes (s : StreamId) (σ σ' : Registry) : Prop where
  link : Heap.Rel RemoteDSLink.Shrinks σ.link σ'.link
  stream : ∀ t, t ≠ s → σ'.stream.get t = σ.stream.get t
  dnode : ∀ d, (σ'.dnode.get d).map DownstreamNode.link = (σ.dnode.get d).map DownstreamNode.link

section Closing

variable {σ σ' τ : Registry} {X E : StreamId → Key → Prop} {O : StreamId → Prop} {s : StreamId} {L : LinkId} {rid : Nat}

theorem RemoteDSLink.Shrinks.refl (link : RemoteDSLink) : link.Shrinks link :=
  ⟨rfl, rfl, rfl, rfl, fun _ => rfl, fun _ => rfl, fun _ => .inl rfl, fun _ => .inl rfl⟩

theorem RemoteDSLink.Shrinks.trans (a b c : RemoteDSLink) (h : a.Shrinks b) (h' : b.Shrinks c) : a.Shrinks c where
  dsId := h'.dsId.trans h.dsId
  node := h'.node.trans h.node
  requesterLocked := h'.requesterLocked.trans h.requesterLocked
  responderLocked := h'.responderLocked.trans h.responderLocked
  requesterKept hl := (h'.requesterKept (h.requesterLocked.trans hl)).trans (h.requesterKept hl)
  responderKept hl := (h'.responderKept (h.responderLocked.trans hl)).trans (h.responderKept hl)
  requesterLess r := by
    rcases h'.requesterLess r with hr | hr
    · rw [hr]
      exact h.requesterLess r
    · exact .inr hr
  responderLess r := by
    rcases h'.responderLess r with hr | hr
    · rw [hr]
      exact h.responderLess r
    · exact .inr hr

theorem Closes.refl (s : StreamId) (σ : Registry) : Closes s σ σ :=
  ⟨.refl RemoteDSLink.Shrinks.refl _, fun _ _ => rfl, fun _ => rfl⟩

theorem Closes.trans (h : Closes s σ τ) (h' : Closes s τ σ') : Closes s σ σ' where
  link := h.link.trans RemoteDSLink.Shrinks.trans h'.link
  stream t ht := (h'.stream t ht).trans (h.stream t ht)
  dnode d := (h'.dnode d).trans (h.dnode d)

/-- What touches neither links nor nodes nor another stream. -/
theorem Closes.of_rest (hlink : σ'.link = σ.link) (hdnode : σ'.dnode = σ.dnode)
    (hstream : ∀ t, t ≠ s → σ'.stream.get t = σ.stream.get t) : Closes s σ σ' :=
  ⟨hlink ▸ .refl RemoteDSLink.Shrinks.refl _, hstream, fun d => by rw [hdnode]⟩

theorem Closes.openLink (h : Closes s σ σ') : σ'.openLink = σ.openLink := by
  apply openLink_congr h.dnode
  intro L
  cases hL : σ.link.get L with
  | none => rw [h.link.get_none.mpr hL]
  | some link =>
    obtain ⟨link', hL', hs⟩ := h.link.get hL
    rw [hL']
    exact congrArg some hs.responderLocked

theorem Closes.reqTable (h : Closes s σ σ') (k : Key) (hk : σ.reqTable k = none) : σ'.reqTable k = none := by
  unfold Registry.reqTable at *
  cases hL : σ.link.get k.1 with
  | none => rw [h.link.get_none.mpr hL, Option.bind_none]
  | some link =>
    obtain ⟨link', hL', hs⟩ := h.link.get hL
    rw [hL, Option.bind_some] at hk
    rw [hL', Option.bind_some]
    rcases hs.requesterLess k.2 with hr | hr
    · rw [hr, hk]
    · rw [hr, Option.join_none]

theorem Closes.respTable (h : Closes s σ σ') (k : Key) {t : StreamId} (hk : σ'.respTable k = some t) :
    σ.respTable k = some t := by
  unfold Registry.respTable at *
  obtain ⟨link', hL', hget⟩ := Option.bind_eq_some_iff.mp hk
  obtain ⟨link, hL, hs⟩ := h.link.get_rev hL'
  rw [hL, Option.bind_some]
  rcases hs.responderLess k.2 with hr | hr
  · rw [← hr, hget]
  · rw [hr] at hget
    cases hget

theorem Closes.unlocked {P : LinkId → Prop} (h : Closes s σ σ') (hu : σ.UnlockedBut P) : σ'.UnlockedBut P := by
  intro L link' hL' hP
  obtain ⟨link, hL, hs⟩ := h.link.get_rev hL'
  rw [hs.requesterLocked, hs.responderLocked]
  exact hu L link hL hP

/-- An erased entry in one link. -/
theorem closes_modLink {f : RemoteDSLink → RemoteDSLink} (hf : ∀ link, σ.link.get L = some link → link.Shrinks (f link)) :
    Closes s σ (σ.modLink L f) :=
  ⟨Heap.rel_modify RemoteDSLink.Shrinks.refl hf, fun _ _ => rfl, fun _ => rfl⟩

/-- Links with the same dsId and the same node. -/
def RemoteDSLink.Agree (link link' : RemoteDSLink) : Prop := link'.dsId = link.dsId ∧ link'.node = link.node

theorem Closes.agree (h : Closes s σ σ') : Heap.Rel RemoteDSLink.Agree σ.link σ'.link := by
  refine ⟨h.link.1, fun i => ?_⟩
  cases hi : σ.link.get i with
  | none =>
    rw [h.link.get_none.mpr hi]
    exact .none
  | some link =>
    obtain ⟨link', hi', hs⟩ := h.link.get hi
    rw [hi']
    exact .some ⟨hs.dsId, hs.node⟩

theorem respNames_congr (hstream : σ'.stream = σ.stream) (hopen : σ'.openLink = σ.openLink) :
    σ'.respNames = σ.respNames := by
  have hresponders : σ'.responders = σ.responders := by
    funext st k
    cases st <;> simp [responders, hopen]
  unfold respNames
  rw [hstream, hresponders]

theorem reqNames_congr (hstream : σ'.stream = σ.stream) : σ'.reqNames = σ.reqNames := by
  unfold reqNames
  rw [hstream]

theorem ownNames_congr (hstream : σ'.stream = σ.stream) : σ'.ownNames = σ.ownNames := by
  unfold ownNames
  rw [hstream]

/-! ### A stream is replaced -/

theorem get_setStream {x : BrokerStream} (hs : σ.stream.get s = some x) (y : BrokerStream) (t : StreamId) :
    (σ.setStream s y).stream.get t = if t = s then some y else σ.stream.get t := by
  show (σ.stream.put s y).get t = _
  rw [Heap.get_put, hs]
  rfl

/-- Its requesters stay. -/
theorem setStream_reqNames {x y : BrokerStream} (hs : σ.stream.get s = some x) (hsame : y.requesters = x.requesters) :
    (σ.setStream s y).reqNames = σ.reqNames := by
  funext t k
  unfold reqNames
  rw [get_setStream hs]
  by_cases hts : t = s
  · subst hts
    simp [hs, hsame]
  · rw [if_neg hts]

/-- No responder is added. -/
theorem setStream_respNames {x y : BrokerStream} (hs : σ.stream.get s = some x)
    (hless : ∀ k, σ.responders y k → σ.responders x k) :
    ∀ t k, (σ.setStream s y).respNames t k → σ.respNames t k := by
  rintro t k ⟨z, hz, hk⟩
  rw [get_setStream hs] at hz
  split at hz
  · rename_i hts
    cases hz
    exact ⟨x, hts ▸ hs, hless k (by cases y <;> exact hk)⟩
  · exact ⟨z, hz, by cases z <;> exact hk⟩

/-- An invoke stream is at no node. -/
theorem setInvoke_ownNames {st st' : BrokerInvokeStream} (hst : σ.stream.get s = some (.invoke st)) :
    (σ.setStream s (.invoke st')).ownNames = σ.ownNames := by
  funext t k
  unfold ownNames
  rw [get_setStream hst]
  by_cases hts : t = s
  · subst hts
    simp [hst]
  · rw [if_neg hts]

/-- A list stream stays at its node. -/
theorem setList_ownNames {st st' : BrokerListStream} (hst : σ.stream.get s = some (.list st))
    (hown : (st'.node, st'.remotePath) = (st.node, st.remotePath)) :
    (σ.setStream s (.list st')).ownNames = σ.ownNames := by
  funext t k
  unfold ownNames
  rw [get_setStream hst]
  by_cases hts : t = s
  · subst hts
    simp [hst, hown]
  · rw [if_neg hts]

theorem setStream_dead {x : BrokerStream} (hs : σ.stream.get s = some x) (y : BrokerStream) :
    (σ.setStream s y).Dead = σ.Dead := by
  funext t
  unfold Dead
  rw [get_setStream hs]
  by_cases hts : t = s
  · subst hts
    simp [hs]
  · rw [if_neg hts]
    rfl

/-- Where the streams stay, only what is said about the tables is to be shown. -/
theorem Book.of_links {X' E' : StreamId → Key → Prop} {O' : StreamId → Prop} (h : σ.Book X E O)
    (hlink : Heap.Rel RemoteDSLink.Agree σ.link σ'.link)
    (hdnode : ∀ d, (σ'.dnode.get d).map DownstreamNode.link = (σ.dnode.get d).map DownstreamNode.link)
    (hstream : σ'.stream = σ.stream) (hlistener : σ'.listener = σ.listener)
    (hreq : FiledBut σ.reqNames σ'.reqTable X') (hreq' : ListedBut σ.reqNames σ'.reqTable E')
    (hresp : FiledBut σ'.respNames σ'.respTable (fun s _ => O' s))
    (howner : FiledBut σ.ownNames σ'.ownTable (fun s _ => O' s))
    (howned : ListedBut σ.ownNames σ'.ownTable (fun s _ => σ.Dead s))
    (hanswered : ∀ s k, σ'.respTable k = some s → s < σ.stream.next ∧
      ∀ st, σ.stream.get s = some (.invoke st) → st.call = .remote k.1 k.2) : σ'.Book X' E' O' := by
  have hreqNames := reqNames_congr hstream
  have hownNames := ownNames_congr hstream
  refine ⟨hreqNames ▸ hreq, hreqNames ▸ hreq', hresp, hownNames ▸ howner, ?_, hstream ▸ hanswered, ?_, ?_, ?_, ?_, ?_⟩
  · unfold Dead
    rw [hownNames, hstream]
    exact howned
  · intro t st dsId k ht hk
    obtain ⟨link, hL, hid⟩ := h.dsId t st dsId k (hstream ▸ ht) hk
    obtain ⟨link', hL', hs⟩ := hlink.get hL
    exact ⟨link', hL', hs.1.trans hid⟩
  · intro d node' L hd' hl
    have hmap := hdnode d
    rw [hd', Option.map_some, eq_comm, Option.map_eq_some_iff] at hmap
    obtain ⟨node, hd, hnode⟩ := hmap
    obtain ⟨link, hL, hn⟩ := h.nodeLink d node L hd (hnode.trans hl)
    obtain ⟨link', hL', hs⟩ := hlink.get hL
    exact ⟨link', hL', hs.2.trans hn⟩
  · intro L link' hL'
    obtain ⟨link, hL, hs⟩ := hlink.get_rev hL'
    obtain ⟨node, hd, hl⟩ := h.linkNode L link hL
    have hmap := hdnode link.node
    rw [hd, Option.map_some, Option.map_eq_some_iff] at hmap
    obtain ⟨node', hd', hnode⟩ := hmap
    exact ⟨node', hs.2 ▸ hd', hnode.trans hl⟩
  · rw [hlistener, hstream]
    exact h.listeners
  · rw [hlistener, hstream]
    exact h.entered

/-- `Book.of_links` for a step that only closes. -/
theorem Book.of_closes {X' E' : StreamId → Key → Prop} {O' : StreamId → Prop} (h : σ.Book X E O) (hc : Closes s σ σ')
    (hstream : σ'.stream = σ.stream) (hlistener : σ'.listener = σ.listener)
    (hreq : FiledBut σ.reqNames σ'.reqTable X') (hreq' : ListedBut σ.reqNames σ'.reqTable E')
    (hresp : FiledBut σ.respNames σ'.respTable (fun s _ => O' s))
    (howner : FiledBut σ.ownNames σ'.ownTable (fun s _ => O' s))
    (howned : ListedBut σ.ownNames σ'.ownTable (fun s _ => σ.Dead s)) : σ'.Book X' E' O' :=
  h.of_links hc.agree hc.dnode hstream hlistener hreq hreq' (respNames_congr hstream hc.openLink ▸ hresp) howner howned
    (fun s k hk => h.answered s k (hc.respTable k hk))

/-- Where only tables of links change. -/
theorem Book.of_tables {X' E' : StreamId → Key → Prop} {O' : StreamId → Prop} (h : σ.Book X E O) (hc : Closes s σ σ')
    (hstream : σ'.stream = σ.stream) (hnode : σ'.node = σ.node) (hdnode : σ'.dnode = σ.dnode)
    (hlistener : σ'.listener = σ.listener)
    (hreq : FiledBut σ.reqNames σ'.reqTable X') (hreq' : ListedBut σ.reqNames σ'.reqTable E')
    (hresp : FiledBut σ.respNames σ'.respTable (fun s _ => O' s)) (hO : ∀ s, O s → O' s) : σ'.Book X' E' O' := by
  have hownTable : σ'.ownTable = σ.ownTable := by
    unfold ownTable
    rw [hnode, hdnode]
  apply h.of_closes hc hstream hlistener hreq hreq' hresp
  · rw [hownTable]
    exact h.owner.mono (fun _ _ hn => hn) (fun s _ _ hs _ => hO s hs)
  · rw [hownTable]
    exact h.owned

theorem modLink_agree {f : RemoteDSLink → RemoteDSLink} (hf : ∀ link : RemoteDSLink, link.Agree (f link)) :
    Heap.Rel RemoteDSLink.Agree σ.link (σ.modLink L f).link :=
  Heap.rel_modify (fun _ => ⟨rfl, rfl⟩) (fun link _ => hf link)

theorem respNames_modLink {f : RemoteDSLink → RemoteDSLink} (hf : ∀ link, (f link).responderLocked = link.responderLocked) :
    (σ.modLink L f).respNames = σ.respNames := by
  refine respNames_congr rfl (openLink_congr (fun _ => rfl) (fun l => ?_))
  show ((σ.link.modify L f).get l).map RemoteDSLink.responderLocked = _
  rw [Heap.get_modify]
  split
  · rename_i hl
    subst hl
    cases σ.link.get l <;> simp [hf]
  · rfl

/-- Setting a requester entry of a live link. -/
theorem setRequester_book {X' E' : StreamId → Key → Prop} {x : Option StreamId} {link : RemoteDSLink} (h : σ.Book X E O)
    (hL : σ.link.get L = some link) (hreq : FiledBut σ.reqNames (Function.update σ.reqTable (L, rid) x) X')
    (hreq' : ListedBut σ.reqNames (Function.update σ.reqTable (L, rid) x) E') :
    (σ.setRequester L rid x).Book X' E' O := by
  have htable := reqTable_set (r := rid) (s := x) hL
  have hresp : (σ.setRequester L rid x).respTable = σ.respTable := respTable_same (fun _ => rfl)
  have hagree : Heap.Rel RemoteDSLink.Agree σ.link (σ.setRequester L rid x).link := modLink_agree (fun _ => ⟨rfl, rfl⟩)
  apply h.of_links hagree (fun _ => rfl) rfl rfl (htable ▸ hreq) (htable ▸ hreq') _
    h.owner h.owned (hresp ▸ h.answered)
  unfold setRequester
  rw [respNames_modLink (fun _ => by rfl), respTable_same (fun _ => by rfl)]
  exact h.responder

/-- Setting a responder entry of a live link. -/
theorem setResponder_book {O' : StreamId → Prop} {x : Option StreamId} {link : RemoteDSLink} (h : σ.Book X E O)
    (hL : σ.link.get L = some link)
    (hresp : FiledBut σ.respNames (Function.update σ.respTable (L, rid) x) (fun s _ => O' s)) (hO : ∀ t, O t → O' t)
    (hx : ∀ s, x = some s → s < σ.stream.next ∧ ∀ st, σ.stream.get s = some (.invoke st) → st.call = .remote L rid) :
    (σ.setResponder L rid x).Book X E O' := by
  have htable := respTable_set (r := rid) (s := x) hL
  have hreq : (σ.setResponder L rid x).reqTable = σ.reqTable := reqTable_same (fun _ => rfl)
  have hagree : Heap.Rel RemoteDSLink.Agree σ.link (σ.setResponder L rid x).link := modLink_agree (fun _ => ⟨rfl, rfl⟩)
  apply h.of_links hagree (fun _ => rfl) rfl rfl (hreq ▸ h.requester)
    (hreq ▸ h.requested) _ (h.owner.mono (fun _ _ hn => hn) (fun t _ _ ht _ => hO t ht)) h.owned (by
      rw [htable]
      intro s k hk
      by_cases heq : k = (L, rid)
      · subst heq
        exact hx s (by rwa [Function.update_self] at hk)
      · rw [Function.update_of_ne heq] at hk
        exact h.answered s k hk)
  rw [htable]
  unfold setResponder
  rw [respNames_modLink (fun _ => by rfl)]
  exact hresp

theorem removeRequester_cases (h : σ.removeRequester L rid = some σ') : ∃ link, σ.link.get L = some link ∧
    (link.requesterLocked = true ∧ σ' = σ ∨ link.requesterLocked = false ∧
      σ' = σ.modLink L (fun link => { link with requesterStreams := link.requesterStreams.erase rid })) := by
  simp only [removeRequester, Option.bind_eq_bind, Option.bind_eq_some_iff, Option.some.injEq] at h
  obtain ⟨link, hL, rfl⟩ := h
  refine ⟨link, hL, ?_⟩
  cases link.requesterLocked <;> simp

theorem removeResponder_cases (h : σ.removeResponder L rid = some σ') : ∃ link, σ.link.get L = some link ∧
    (link.responderLocked = true ∧ σ' = σ ∨ link.responderLocked = false ∧
      σ' = σ.modLink L (fun link => { link with responderStreams := link.responderStreams.erase rid })) := by
  simp only [removeResponder, Option.bind_eq_bind, Option.bind_eq_some_iff, Option.some.injEq] at h
  obtain ⟨link, hL, rfl⟩ := h
  refine ⟨link, hL, ?_⟩
  cases link.responderLocked <;> simp

/-- What is removed is gone, unless the table is locked; whoever named it is missing then. -/
theorem removeRequester_book {Y : StreamId → Key → Prop} (h : σ.Book X E O)
    (hX : ∀ t k, X t k → Y t k) (hk : ∀ t, σ.reqNames t (L, rid) → Y t (L, rid))
    (hs : σ.removeRequester L rid = some σ') :
    σ'.Book Y E O ∧ Closes s σ σ' ∧ σ'.stream = σ.stream ∧ σ'.listener = σ.listener ∧
      (σ'.reqTable (L, rid) = none ∨ ∃ link, σ.link.get L = some link ∧ link.requesterLocked = true) := by
  obtain ⟨link, hL, ⟨hlock, rfl⟩ | ⟨hlock, rfl⟩⟩ := removeRequester_cases hs
  · refine ⟨?_, .refl s _, rfl, rfl, .inr ⟨link, hL, hlock⟩⟩
    exact { h with requester := h.requester.mono (fun _ _ hn => hn) (fun t k _ hx _ => hX t k hx) }
  · have hc : Closes s σ (σ.modLink L (fun link => { link with requesterStreams := link.requesterStreams.erase rid })) := by
      apply closes_modLink
      intro link' hL'
      cases hL.symm.trans hL'
      refine ⟨rfl, rfl, rfl, rfl, by simp [hlock], fun _ => rfl, fun r => ?_, fun _ => .inl rfl⟩
      rw [AssocMap.get_erase]
      split
      · exact .inr rfl
      · exact .inl rfl
    have htable := reqTable_erase (σ := σ) (L := L) (r := rid)
      (f := fun link => { link with requesterStreams := link.requesterStreams.erase rid }) (fun _ => rfl)
    refine ⟨h.of_tables hc rfl rfl rfl rfl ?_ ?_ ?_ (fun _ ho => ho), hc, rfl, rfl, .inl ?_⟩
    · rw [htable]
      exact h.requester.erase (fun _ _ hn => hn) hk (fun t l _ hx => hX t l hx)
    · rw [htable]
      exact h.requested.erase (fun _ _ _ hn => .inl hn) (fun _ _ _ he => he)
    · rw [respTable_same (fun _ => by rfl)]
      exact h.responder
    · rw [htable, Function.update_self]

theorem removeResponder_book {O' : StreamId → Prop} (h : σ.Book X E O)
    (hO : ∀ t, O t → O' t) (hk : ∀ link, σ.link.get L = some link → link.responderLocked = false →
      ∀ t, σ.respNames t (L, rid) → O' t) (hs : σ.removeResponder L rid = some σ') :
    σ'.Book X E O' ∧ Closes s σ σ' ∧ σ'.stream = σ.stream ∧ σ'.listener = σ.listener ∧ σ'.node = σ.node ∧
      σ'.dnode = σ.dnode ∧ σ'.reqTable = σ.reqTable := by
  obtain ⟨link, hL, ⟨hlock, rfl⟩ | ⟨hlock, rfl⟩⟩ := removeResponder_cases hs
  · refine ⟨?_, .refl s _, rfl, rfl, rfl, rfl, rfl⟩
    exact { h with
      responder := h.responder.mono (fun _ _ hn => hn) (fun t k _ hx _ => hO t hx)
      owner := h.owner.mono (fun _ _ hn => hn) (fun t k _ hx _ => hO t hx) }
  · have hc : Closes s σ (σ.modLink L (fun link => { link with responderStreams := link.responderStreams.erase rid })) := by
      apply closes_modLink
      intro link' hL'
      cases hL.symm.trans hL'
      refine ⟨rfl, rfl, rfl, rfl, fun _ => rfl, by simp [hlock], fun r => .inl rfl, fun r => ?_⟩
      rw [AssocMap.get_erase]
      split
      · exact .inr rfl
      · exact .inl rfl
    have htable := respTable_erase (σ := σ) (L := L) (r := rid)
      (f := fun link => { link with responderStreams := link.responderStreams.erase rid }) (fun _ => rfl)
    have hreq : (σ.modLink L (fun link => { link with responderStreams := link.responderStreams.erase rid })).reqTable
        = σ.reqTable := reqTable_same (fun _ => rfl)
    refine ⟨h.of_tables hc rfl rfl rfl rfl (hreq ▸ h.requester) (hreq ▸ h.requested) ?_ hO, hc, rfl, rfl, rfl, rfl, hreq⟩
    rw [htable]
    exact h.responder.erase (fun _ _ hn => hn) (hk link hL hlock) (fun t l _ hx => hO t hx)

/-- The loop of `broker_stream_free` over the requesters of `s`, with the keys that are still to come. -/
theorem removeRequesters_book (keys : List Key) (h : σ.Book (fun t k => X t k ∨ t = s) E O)
    (hX : ∀ t k, t ≠ s → σ.reqNames s k → σ.reqNames t k → X t k) (hkeys : ∀ k ∈ keys, σ.reqNames s k)
    (hlock : ∀ k ∈ keys, E s k ∨ ∀ link, σ.link.get k.1 = some link → link.requesterLocked = false)
    (hleft : ∀ k, σ.reqTable k = some s → k ∈ keys ∨ E s k)
    (hs : keys.foldlM (fun (σ : Registry) p => σ.removeRequester p.1 p.2) σ = some σ') :
    σ'.Book (fun t k => X t k ∨ t = s) E O ∧ Closes s σ σ' ∧ σ'.stream = σ.stream ∧ σ'.listener = σ.listener ∧
      ∀ k, σ'.reqTable k = some s → E s k := by
  induction keys generalizing σ with
  | nil =>
    cases hs
    exact ⟨h, .refl s _, rfl, rfl, fun k hk => (hleft k hk).resolve_left (by simp)⟩
  | cons p keys ih =>
    simp only [List.foldlM_cons, Option.bind_eq_bind, Option.bind_eq_some_iff] at hs
    obtain ⟨τ, hτ, hs⟩ := hs
    obtain ⟨hb, hc, hstream, hlistener, hgone⟩ := removeRequester_book (s := s) h (fun _ _ hx => hx) (by
      intro t ht
      by_cases hts : t = s
      · exact .inr hts
      · exact .inl (hX t p hts (hkeys p List.mem_cons_self) ht)) hτ
    have hnames := reqNames_congr hstream
    obtain ⟨hb', hc', hstream', hlistener', hgone'⟩ := ih hb
      (fun t k hts hk ht => hX t k hts (hnames ▸ hk) (hnames ▸ ht))
      (fun k hk => hnames ▸ hkeys k (List.mem_cons_of_mem _ hk)) (fun k hk => by
        refine (hlock k (List.mem_cons_of_mem _ hk)).imp id (fun hu link hl => ?_)
        obtain ⟨link', hl', hshrink⟩ := hc.link.get_rev hl
        exact hshrink.requesterLocked.trans (hu link' hl')) (fun k hk => by
        -- the entry was there before, and it is not the one just removed
        have hbefore : σ.reqTable k = some s := by
          rcases removeRequester_cases hτ with ⟨link, hl, ⟨-, rfl⟩ | ⟨-, rfl⟩⟩
          · exact hk
          · rw [reqTable_erase (fun _ => rfl)] at hk
            by_cases hkp : k = (p.1, p.2)
            · rw [hkp, Function.update_self] at hk
              cases hk
            · rwa [Function.update_of_ne hkp] at hk
        rcases hleft k hbefore with hmem | hE
        · rcases List.mem_cons.mp hmem with rfl | hmem
          · rcases hlock k List.mem_cons_self with hE | hu
            · exact .inr hE
            · rcases hgone with hnone | ⟨link, hl, hlocked⟩
              · exact absurd (hk.symm.trans hnone) (by simp)
              · exact absurd (hlocked.symm.trans (hu link hl)) (by simp)
          · exact .inl hmem
        · exact .inr hE) hs
    exact ⟨hb', hc.trans hc', hstream'.trans hstream, hlistener'.trans hlistener, hgone'⟩

theorem dropListResponder_book {d : DownId} {st : BrokerListStream} (h : σ.Book X E O)
    (hst : σ.stream.get s = some (.list st)) (hnode : st.node = .downstream d)
    (hs : σ.dropListResponder d st.responderRid = some σ') :
    σ'.Book X E (fun t => O t ∨ t = s) ∧ Closes s σ σ' ∧ σ'.stream = σ.stream ∧ σ'.listener = σ.listener ∧
      σ'.node = σ.node ∧ σ'.dnode = σ.dnode ∧ σ'.reqTable = σ.reqTable := by
  simp only [dropListResponder, Option.bind_eq_bind, Option.bind_eq_some_iff] at hs
  obtain ⟨node, hd, hs⟩ := hs
  cases hl : node.link with
  | none =>
    simp only [hl, Option.some.injEq] at hs
    subst hs
    refine ⟨?_, .refl s _, rfl, rfl, rfl, rfl, rfl⟩
    exact { h with
      responder := h.responder.mono (fun _ _ hn => hn) (fun t k _ hx _ => .inl hx)
      owner := h.owner.mono (fun _ _ hn => hn) (fun t k _ hx _ => .inl hx) }
  | some l =>
    simp only [hl] at hs
    apply removeResponder_book h (fun _ ho => .inl ho) _ hs
    intro link hL hlock t ht
    have hself : σ.respNames s (l, st.responderRid) := by
      refine ⟨_, hst, d, hnode, ?_, rfl⟩
      simp [openLink, hd, hl, hL, hlock]
    by_cases hts : t = s
    · exact .inr hts
    · exact .inl (h.responder.only hself ht hts)

/-- Whatever kind of stream `s` is, its responder forgets it. -/
theorem dropResponder_book {st : BrokerStream} (h : σ.Book X E (fun t => O t ∨ t = s)) (hst : σ.stream.get s = some st)
    (hs : σ.dropResponder st = some σ') : σ'.Book X E (fun t => O t ∨ t = s) ∧ Closes s σ σ' ∧
      σ'.listener = σ.listener ∧ σ'.reqTable = σ.reqTable := by
  cases st with
  | list st =>
    simp only [dropResponder] at hs
    cases hnode : st.node with
    | regular n =>
      simp only [hnode, Option.map_eq_some_iff] at hs
      obtain ⟨-, -, rfl⟩ := hs
      exact ⟨h, .refl s _, rfl, rfl⟩
    | downstream d =>
      simp only [hnode] at hs
      obtain ⟨hb, hc, -, hlistener, -, -, hreq⟩ := dropListResponder_book h hst hnode hs
      refine ⟨?_, hc, hlistener, hreq⟩
      exact { hb with
        responder := hb.responder.mono (fun _ _ hn => hn) (fun t k _ hx _ => hx.elim id .inr)
        owner := hb.owner.mono (fun _ _ hn => hn) (fun t k _ hx _ => hx.elim id .inr) }
  | invoke st =>
    simp only [dropResponder] at hs
    cases hcall : st.call with
    | remote responder rid =>
      simp only [hcall] at hs
      obtain ⟨hb, hc, -, hlistener, -, -, hreq⟩ := removeResponder_book (s := s) h (fun _ ho => ho) (by
        rintro link - - t ht
        have hself : σ.respNames s (responder, rid) := ⟨_, hst, hcall⟩
        by_cases hts : t = s
        · exact .inr hts
        · exact h.responder.only hself ht hts) hs
      exact ⟨hb, hc, hlistener, hreq⟩
    | _ =>
      simp only [hcall, Option.some.injEq] at hs
      subst hs
      exact ⟨h, .refl s _, rfl, rfl⟩

/-- The stream record itself goes last. -/
theorem freeStream_book {freed : List (List (CString × LinkId × Nat))} (h : σ.Book (fun t k => X t k ∨ t = s) E (fun t => O t ∨ t = s))
    (hleft : ∀ k, σ.reqTable k = some s → E s k)
    (hlisten : ∀ id listener, σ.listener.get id = some listener → listener.list ≠ none → listener.stream ≠ s) :
    ({ σ with stream := σ.stream.free s, freed := freed } : Registry).Book (fun t k => t ≠ s ∧ X t k) E
      (fun t => t ≠ s ∧ O t) := by
  have hreq : ∀ t k, ({ σ with stream := σ.stream.free s, freed := freed } : Registry).reqNames t k →
      t ≠ s ∧ σ.reqNames t k := by
    rintro t k ⟨st, ht, hk⟩
    obtain ⟨hts, ht⟩ := Heap.get_free_eq_some.mp ht
    exact ⟨hts, st, ht, hk⟩
  have hresp : ∀ t k, ({ σ with stream := σ.stream.free s, freed := freed } : Registry).respNames t k →
      t ≠ s ∧ σ.respNames t k := by
    rintro t k ⟨st, ht, hk⟩
    obtain ⟨hts, ht⟩ := Heap.get_free_eq_some.mp ht
    refine ⟨hts, st, ht, ?_⟩
    cases st <;> exact hk
  have hown : ∀ t k, ({ σ with stream := σ.stream.free s, freed := freed } : Registry).ownNames t k →
      t ≠ s ∧ σ.ownNames t k := by
    rintro t k ⟨st, ht, hk⟩
    obtain ⟨hts, ht⟩ := Heap.get_free_eq_some.mp ht
    exact ⟨hts, st, ht, hk⟩
  refine ⟨?_, ?_, ?_, ?_, ?_, ?_, ?_, h.nodeLink, h.linkNode, ?_, ?_⟩
  · exact h.requester.mono (fun t k hn => (hreq t k hn).2)
      (fun t k hn hx _ => ⟨(hreq t k hn).1, hx.resolve_right (hreq t k hn).1⟩)
  · apply h.requested.mono _ (fun _ _ he => he)
    rintro t k hk ⟨st, ht, hst⟩
    by_cases hts : t = s
    · exact .inr (hts ▸ hleft k (hts ▸ hk))
    · exact .inl ⟨st, Heap.get_free_eq_some.mpr ⟨hts, ht⟩, hst⟩
  · exact h.responder.mono (fun t k hn => (hresp t k hn).2)
      (fun t k hn hx _ => ⟨(hresp t k hn).1, hx.resolve_right (hresp t k hn).1⟩)
  · exact h.owner.mono (fun t k hn => (hown t k hn).2)
      (fun t k hn hx _ => ⟨(hown t k hn).1, hx.resolve_right (hown t k hn).1⟩)
  · refine h.owned.mono ?_ ?_
    · rintro t k - ⟨st, ht, hk⟩
      by_cases hts : t = s
      · have hlt : t < σ.stream.next := Heap.lt_next_of_get ht
        exact .inr ⟨hlt, hts ▸ Heap.get_free_self ..⟩
      · exact .inl ⟨st, Heap.get_free_eq_some.mpr ⟨hts, ht⟩, hk⟩
    · rintro t - ⟨hlt, hnone⟩
      refine ⟨hlt, ?_⟩
      show (σ.stream.free s).get t = none
      rw [Heap.get_free, hnone, ite_self]
  · intro t k hk
    obtain ⟨hlt, hcall⟩ := h.answered t k hk
    exact ⟨hlt, fun st ht => hcall st (Heap.get_free_eq_some.mp ht).2⟩
  · intro t st dsId k ht
    exact h.dsId t st dsId k (Heap.get_free_eq_some.mp ht).2
  · intro id listener at' hid hat
    obtain ⟨st, data, path, hst, hdata, hpath⟩ := h.listeners id listener at' hid hat
    have hne := hlisten id listener hid (by simp [hat])
    exact ⟨st, data, path, Heap.get_free_eq_some.mpr ⟨hne, hst⟩, hdata, hpath⟩
  · intro t st data kind path id ht
    exact h.entered t st data kind path id (Heap.get_free_eq_some.mp ht).2

/-- `broker_stream_free` takes the stream out of every table it is in. -/
theorem brokerStreamFree_book (h : σ.Book (fun t k => X t k ∨ t = s) E (fun t => O t ∨ t = s))
    (hX : ∀ t k, t ≠ s → σ.reqNames s k → σ.reqNames t k → X t k)
    (hlock : ∀ k, σ.reqNames s k → E s k ∨ ∀ link, σ.link.get k.1 = some link → link.requesterLocked = false)
    (hlisten : ∀ id listener, σ.listener.get id = some listener → listener.list ≠ none → listener.stream ≠ s)
    (hs : σ.brokerStreamFree s = some σ') :
    σ'.Book (fun t k => t ≠ s ∧ X t k) E (fun t => t ≠ s ∧ O t) ∧ Closes s σ σ' ∧ σ'.stream.get s = none := by
  simp only [brokerStreamFree, Option.bind_eq_bind, Option.bind_eq_some_iff] at hs
  obtain ⟨st, hst, hs⟩ := hs
  have hdrop : ∀ {τ υ : Registry} {freed : List (List (CString × LinkId × Nat))} (keys : List Key),
      (∀ k, σ.reqNames s k ↔ k ∈ keys) → keys.foldlM (fun (σ : Registry) p => σ.removeRequester p.1 p.2) σ = some τ →
      τ.dropResponder st = some υ →
      ({ υ with stream := υ.stream.free s, freed := freed } : Registry).Book (fun t k => t ≠ s ∧ X t k) E
        (fun t => t ≠ s ∧ O t) ∧ Closes s σ { υ with stream := υ.stream.free s, freed := freed } ∧
        (υ.stream.free s).get s = none := by
    intro τ υ freed keys hkeys hτ hυ
    obtain ⟨hb, hc, hstream, hlistener, hgone⟩ := removeRequesters_book keys h hX (fun k hk => (hkeys k).mpr hk)
      (fun k hk => hlock k ((hkeys k).mpr hk)) (fun k hk => (h.requested s k hk).imp (hkeys k).mp id) hτ
    obtain ⟨hb', hc', hlistener', hreq⟩ := dropResponder_book hb (hstream ▸ hst) hυ
    refine ⟨freeStream_book hb' (hreq ▸ hgone) ?_, (hc.trans hc').trans ?_, Heap.get_free_self ..⟩
    · rw [hlistener', hlistener]
      exact hlisten
    · exact .of_rest rfl rfl (fun t ht => Heap.get_free_ne ht)
  cases st with
  | list st =>
    simp only [Option.bind_eq_some_iff, Option.some.injEq] at hs
    obtain ⟨τ, hτ, υ, hυ, rfl⟩ := hs
    refine hdrop st.requesterLinks.values (fun k => ?_) hτ hυ
    rw [AssocMap.mem_values]
    constructor
    · rintro ⟨st', hst', hk⟩
      cases hst.symm.trans hst'
      exact hk
    · exact fun hk => ⟨_, hst, hk⟩
  | invoke st =>
    simp only [Option.bind_eq_some_iff, Option.some.injEq] at hs
    obtain ⟨τ, hτ, υ, hυ, rfl⟩ := hs
    refine hdrop [(st.requester, st.requesterRid)] (fun k => ?_) (by simpa using hτ) hυ
    rw [List.mem_singleton]
    constructor
    · rintro ⟨st', hst', hk⟩
      cases hst.symm.trans hst'
      exact Eq.symm hk
    · rintro rfl
      exact ⟨_, hst, rfl⟩

/-- A list stream is changed, and stays at its node. -/
theorem setList_book {X' E' : StreamId → Key → Prop} {st st' : BrokerListStream} (h : σ.Book X E O)
    (hst : σ.stream.get s = some (.list st)) (hown : (st'.node, st'.remotePath) = (st.node, st.remotePath))
    (hresp : ∀ k, σ.responders (.list st') k → σ.responders (.list st) k)
    (hreq : FiledBut (σ.setStream s (.list st')).reqNames σ.reqTable X')
    (hreq' : ListedBut (σ.setStream s (.list st')).reqNames σ.reqTable E')
    (hdsId : ∀ dsId k, st'.requesterLinks.get dsId = some k → ∃ link, σ.link.get k.1 = some link ∧ link.dsId = some dsId) :
    (σ.setStream s (.list st')).Book X' E' O := by
  have hget := get_setStream hst (.list st')
  have hresp := setStream_respNames hst hresp
  have hown := setList_ownNames hst hown
  refine ⟨hreq, hreq', ?_, ?_, ?_, ?_, ?_, h.nodeLink, h.linkNode, ?_, ?_⟩
  · exact h.responder.mono hresp (fun _ _ _ hx _ => hx)
  · rw [hown]
    exact h.owner
  · rw [hown, setStream_dead hst]
    exact h.owned
  · intro t k hk
    obtain ⟨hlt, hcall⟩ := h.answered t k hk
    refine ⟨hlt, fun x ht => ?_⟩
    rw [hget] at ht
    split at ht
    · cases ht
    · exact hcall x ht
  · intro t x dsId k ht hk
    rw [hget] at ht
    split at ht
    · cases ht
      exact hdsId dsId k hk
    · exact h.dsId t x dsId k ht hk
  · intro id listener at' hid hat
    obtain ⟨x, data, path, hx, hdata, hpath⟩ := h.listeners id listener at' hid hat
    refine ⟨x, data, path, ?_, hdata, hpath⟩
    rw [hget, if_neg]
    · exact hx
    · intro hts
      cases (hts ▸ hst).symm.trans hx
  · intro t x data kind path id ht
    rw [hget] at ht
    split at ht
    · cases ht
    · exact h.entered t x data kind path id ht

theorem ownTable_regular {n : NodeId} {node : BrokerNode} (hn : σ.node.get n = some node) (x : Option StreamId) :
    (σ.modNode n (fun node => { node with listStream := x })).ownTable =
      Function.update σ.ownTable (.regular n, []) x := by
  funext k
  obtain ⟨ref, p⟩ := k
  cases ref with
  | downstream d =>
    rw [Function.update_of_ne (by simp)]
    rfl
  | regular m =>
    by_cases hk : m = n ∧ p = []
    · obtain ⟨rfl, rfl⟩ := hk
      rw [Function.update_self]
      simp [ownTable, modNode, hn]
    · rw [Function.update_of_ne (by simpa using hk)]
      by_cases hm : m = n
      · have hp : p ≠ [] := fun hp => hk ⟨hm, hp⟩
        simp [ownTable, hp]
      · simp [ownTable, modNode, Heap.get_modify_ne hm]

theorem ownTable_downstream {d : DownId} {m : DownstreamNode} {f : DownstreamNode → DownstreamNode} {p : CString}
    {x : Option StreamId} (hd : σ.dnode.get d = some m)
    (hf : ∀ q, (f m).listStreams.get q = if q = p then x else m.listStreams.get q) :
    (σ.modDnode d f).ownTable = Function.update σ.ownTable (.downstream d, p) x := by
  funext k
  obtain ⟨ref, q⟩ := k
  cases ref with
  | regular n =>
    rw [Function.update_of_ne (by simp)]
    rfl
  | downstream e =>
    by_cases he : e = d
    · subst he
      by_cases hp : q = p
      · subst hp
        rw [Function.update_self]
        simp [ownTable, modDnode, hd, hf]
      · rw [Function.update_of_ne (by simpa using hp)]
        simp [ownTable, modDnode, hd, hf, hp]
    · rw [Function.update_of_ne (by simp [he])]
      simp [ownTable, modDnode, Heap.get_modify_ne he]

theorem closes_modDnode {d : DownId} {f : DownstreamNode → DownstreamNode} (hf : ∀ node, (f node).link = node.link) :
    Closes s σ (σ.modDnode d f) := by
  refine ⟨.refl RemoteDSLink.Shrinks.refl _, fun _ _ => rfl, fun e => ?_⟩
  show ((σ.dnode.modify d f).get e).map DownstreamNode.link = _
  rw [Heap.get_modify]
  split
  · rename_i h
    subst h
    cases σ.dnode.get e <;> simp [hf]
  · rfl

/-- `s` gives up the name `k`, and may be missing there or left over. -/
def But (X : StreamId → Key → Prop) (s : StreamId) (k : Key) (t : StreamId) (l : Key) : Prop := X t l ∨ t = s ∧ l = k

/-- The owner of a list stream forgets it when the last requester has gone. -/
theorem clearOwner_book {st : BrokerListStream} (h : σ.Book X E O) (hst : σ.stream.get s = some (.list st)) (hO : ¬O s)
    (hs : (match st.node with
      | .downstream d => do
        let σ ← σ.dropListResponder d st.responderRid
        some (σ.modDnode d (fun node => { node with listStreams := node.listStreams.erase st.remotePath }))
      | .regular n => do
        let _ ← σ.node.get n
        some (σ.modNode n (fun node => { node with listStream := none }))) = some σ') :
    σ'.Book X E (fun t => O t ∨ t = s) ∧ Closes s σ σ' ∧ σ'.stream = σ.stream := by
  have hself : σ.ownNames s (st.node, st.remotePath) := ⟨st, hst, rfl⟩
  have hown := h.owner.filed hself hO
  cases hnode : st.node with
  | regular n =>
    simp only [hnode, Option.bind_eq_bind, Option.bind_eq_some_iff, Option.some.injEq] at hs
    obtain ⟨node, hn, rfl⟩ := hs
    have hc : Closes s σ (σ.modNode n (fun node => { node with listStream := none })) :=
      .of_rest rfl rfl (fun _ _ => rfl)
    have hpath : st.remotePath = [] := by
      by_contra hp
      rw [hnode] at hown
      simp [ownTable, hp] at hown
    rw [hnode, hpath] at hself
    have htable := ownTable_regular hn none
    refine ⟨h.of_closes hc rfl rfl h.requester h.requested ?_ ?_ ?_, hc, rfl⟩
    · exact h.responder.mono (fun _ _ hn => hn) (fun _ _ _ hx _ => .inl hx)
    · rw [htable]
      refine h.owner.erase (fun _ _ hn => hn) (fun t ht => ?_) (fun _ _ _ hx => .inl hx)
      by_cases hts : t = s
      · exact .inr hts
      · exact .inl (h.owner.only hself ht hts)
    · rw [htable]
      exact h.owned.erase (fun _ _ _ hn => .inl hn) (fun _ _ _ hx => hx)
  | downstream d =>
    simp only [hnode, Option.bind_eq_bind, Option.bind_eq_some_iff, Option.some.injEq] at hs
    obtain ⟨τ, hτ, rfl⟩ := hs
    have hd : ∃ node, σ.dnode.get d = some node := by
      simp only [dropListResponder, Option.bind_eq_bind, Option.bind_eq_some_iff] at hτ
      exact ⟨_, hτ.choose_spec.1⟩
    obtain ⟨node, hd⟩ := hd
    obtain ⟨hb, hc, hstream, hlistener, hn, hdn, hreq⟩ := dropListResponder_book h hst hnode hτ
    have hc' : Closes s τ (τ.modDnode d (fun node => { node with listStreams := node.listStreams.erase st.remotePath })) :=
      closes_modDnode (fun _ => rfl)
    have htable := ownTable_downstream (σ := τ) (d := d) (m := node) (p := st.remotePath) (x := none)
      (f := fun node => { node with listStreams := node.listStreams.erase st.remotePath }) (hdn ▸ hd)
      (fun p => AssocMap.get_erase _ _ p)
    have hself' : τ.ownNames s (.downstream d, st.remotePath) := ⟨st, hstream ▸ hst, by rw [hnode]⟩
    refine ⟨hb.of_closes hc' rfl rfl hb.requester hb.requested hb.responder ?_ ?_, hc.trans hc', hstream⟩
    · rw [htable]
      exact hb.owner.erase_own hself' (fun _ _ => .inr rfl)
    · rw [htable]
      exact hb.owned.erase (fun _ _ _ hn => .inl hn) (fun _ _ _ hx => hx)

/-- `broker_list_req_closed` for a link that uses the stream under `rid`. -/
theorem brokerListReqClosed_book (h : σ.Book (But X s (L, rid)) E O) (hself : σ.reqNames s (L, rid))
    (hO : ¬O s) (hE : E s (L, rid) ∨ σ.reqTable (L, rid) ≠ some s)
    (hs : σ.brokerListReqClosed s L = some σ') :
    Closes s σ σ' ∧ ∃ st, σ'.stream.get s = some (.list st) ∧ ¬σ'.reqNames s (L, rid) ∧
      σ'.Book X E (fun t => O t ∨ t = s ∧ st.requesterLinks.size = 0) := by
  simp only [brokerListReqClosed, Option.bind_eq_bind, Option.bind_eq_some_iff] at hs
  obtain ⟨st, hst, link, hL, dsId, hid, hs⟩ := hs
  have hst : σ.stream.get s = some (.list st) := by
    unfold listStream at hst
    split at hst
    · cases hst
      assumption
    · cases hst
  -- under the dsId of the link stands this link with this rid
  obtain ⟨x, hself', hi⟩ := hself
  cases hst.symm.trans hself'
  obtain ⟨i, hi⟩ := hi
  obtain ⟨link', hL', hid'⟩ := h.dsId s st i (L, rid) hst hi
  cases hL.symm.trans hL'
  cases hid.symm.trans hid'
  set τ := σ.setStream s (.list { st with requesterLinks := st.requesterLinks.erase dsId }) with hτ
  have hget : ∀ t, τ.stream.get t =
      if t = s then some (.list { st with requesterLinks := st.requesterLinks.erase dsId }) else σ.stream.get t :=
    get_setStream hst _
  have hnames : ∀ t k, τ.reqNames t k ↔ σ.reqNames t k ∧ ¬(t = s ∧ k = (L, rid)) := by
    intro t k
    unfold reqNames
    simp only [hget]
    by_cases hts : t = s
    · subst hts
      simp only [if_pos, Option.some.injEq, exists_eq_left', hst, BrokerStream.requesters, AssocMap.get_erase_eq_some,
        true_and]
      constructor
      · rintro ⟨j, hj, hk⟩
        refine ⟨⟨j, hk⟩, ?_⟩
        rintro rfl
        obtain ⟨link', hL', hid'⟩ := h.dsId t st j (L, rid) hst hk
        cases hL.symm.trans hL'
        exact hj (Option.some.inj (hid'.symm.trans hid))
      · rintro ⟨⟨j, hk⟩, hne⟩
        refine ⟨j, ?_, hk⟩
        rintro rfl
        exact hne (Option.some.inj (hk.symm.trans hi))
    · simp [hts]
  have hb : τ.Book X E O := by
    refine setList_book h hst rfl (fun _ hk => hk) ?_ ?_ ?_
    · refine h.requester.mono (fun t k hn => ((hnames t k).mp hn).1) (fun t k hn hx _ => ?_)
      exact hx.resolve_right ((hnames t k).mp hn).2
    · apply h.requested.mono _ (fun _ _ he => he)
      intro t k hk hn
      by_cases hts : t = s ∧ k = (L, rid)
      · obtain ⟨rfl, rfl⟩ := hts
        exact .inr (hE.resolve_right (fun hne => hne hk))
      · exact .inl ((hnames t k).mpr ⟨hn, hts⟩)
    · intro j k hk
      exact h.dsId s st j k hst (AssocMap.get_erase_eq_some.mp hk).2
  have hc : Closes s σ τ := .of_rest rfl rfl (fun t ht => by rw [hget, if_neg ht])
  have hgone : ¬τ.reqNames s (L, rid) := fun hn => ((hnames _ _).mp hn).2 ⟨rfl, rfl⟩
  have hst' : τ.stream.get s = some (.list { st with requesterLinks := st.requesterLinks.erase dsId }) := by
    rw [hget, if_pos rfl]
  split at hs
  · have hσ : σ' = τ := (Option.some.inj hs).symm
    rw [hσ]
    refine ⟨hc, _, hst', hgone, ?_⟩
    exact { hb with
      responder := hb.responder.mono (fun _ _ hn => hn) (fun _ _ _ hx _ => .inl hx)
      owner := hb.owner.mono (fun _ _ hn => hn) (fun _ _ _ hx _ => .inl hx) }
  · rename_i hsize
    obtain ⟨hb', hc', hstream⟩ := clearOwner_book hb hst' hO hs
    refine ⟨hc.trans hc', _, hstream ▸ hst', ?_, ?_⟩
    · rintro ⟨x, hx, hk⟩
      exact hgone ⟨x, hstream ▸ hx, hk⟩
    · refine { hb' with
        responder := hb'.responder.mono (fun _ _ hn => hn) (fun _ _ _ hx _ => ?_)
        owner := hb'.owner.mono (fun _ _ hn => hn) (fun _ _ _ hx _ => ?_) }
      · exact hx.imp id (fun hts => ⟨hts, not_not.mp hsize⟩)
      · exact hx.imp id (fun hts => ⟨hts, not_not.mp hsize⟩)

/-- No listener that is still linked belongs to `s`. -/
def Unlisted (σ : Registry) (s : StreamId) : Prop :=
  ∀ id listener, σ.listener.get id = some listener → listener.list ≠ none → listener.stream ≠ s

theorem unlisted_of_stream {st : BrokerStream} (h : σ.Book X E O) (hst : σ.stream.get s = some st)
    (hno : ∀ x data, st = .invoke x → x.call ≠ .query data) : σ.Unlisted s := by
  intro id listener hid hlist hs
  obtain ⟨at', hat⟩ := Option.ne_none_iff_exists'.mp hlist
  obtain ⟨x, data, -, hx, hdata, -⟩ := h.listeners id listener at' hid hat
  rw [hs, hst] at hx
  exact hno x data (Option.some.inj hx) hdata

theorem freeListeners_spec {ids : List ListenerId} (hs : ids.foldlM freeListener σ = some σ') :
    ∃ listener, σ' = { σ with listener := listener } ∧ listener.next = σ.listener.next ∧
      ∀ id l, listener.get id = some l → id ∉ ids ∧ σ.listener.get id = some l := by
  induction ids generalizing σ with
  | nil =>
    cases hs
    exact ⟨σ'.listener, rfl, rfl, fun id l hl => ⟨by simp, hl⟩⟩
  | cons i ids ih =>
    simp only [List.foldlM_cons, Option.bind_eq_bind, Option.bind_eq_some_iff, freeListener, Option.map_eq_some_iff] at hs
    obtain ⟨τ, ⟨l, -, rfl⟩, hs⟩ := hs
    obtain ⟨listener, rfl, hnext, hget⟩ := ih hs
    refine ⟨listener, rfl, hnext, fun id l hl => ?_⟩
    obtain ⟨hid, hl⟩ := hget id l hl
    obtain ⟨hne, hl⟩ := Heap.get_free_eq_some.mp hl
    exact ⟨by simp [hid, hne], hl⟩

/-- Listeners may go. -/
theorem Book.of_listeners {listener : Heap Listener} (h : σ.Book X E O) (hnext : listener.next = σ.listener.next)
    (hl : ∀ id l, listener.get id = some l → ∃ l', σ.listener.get id = some l' ∧ l'.stream = l.stream ∧
      (l.list = none ∨ l.list = l'.list)) : ({ σ with listener := listener } : Registry).Book X E O := by
  refine ⟨h.requester, h.requested, h.responder, h.owner, h.owned, h.answered, h.dsId, h.nodeLink, h.linkNode, ?_,
    fun t st data kind path id ht hdata hid => hnext ▸ h.entered t st data kind path id ht hdata hid⟩
  intro id l at' hid hat
  obtain ⟨l', hid', hstream, hlist⟩ := hl id l hid
  rw [← hstream]
  exact h.listeners id l' at' hid' ((hlist.resolve_left (by simp [hat])).symm.trans hat)

theorem queryDestroy_book {st : BrokerInvokeStream} {data : ParsedQuery} (h : σ.Book X E O)
    (hst : σ.stream.get s = some (.invoke st)) (hcall : st.call = .query data) (hs : σ.queryDestroy data = some σ') :
    ∃ listener, σ' = { σ with listener := listener } ∧ σ'.Book X E O ∧ σ'.Unlisted s := by
  simp only [queryDestroy, Option.bind_eq_bind, Option.bind_eq_some_iff] at hs
  obtain ⟨τ, hτ, hs⟩ := hs
  obtain ⟨listener, rfl, hnext, hget⟩ := freeListeners_spec hτ
  obtain ⟨listener', rfl, hnext', hget'⟩ := freeListeners_spec hs
  refine ⟨listener', rfl, h.of_listeners (hnext'.trans hnext) (fun id l hl => ?_), ?_⟩
  · exact ⟨l, (hget id l (hget' id l hl).2).2, rfl, .inr rfl⟩
  · -- a linked listener of the query is an entry of one of its maps
    intro id l hid hlist hls
    obtain ⟨hvalue, hid⟩ := hget' id l hid
    obtain ⟨hchild, hid⟩ := hget id l hid
    obtain ⟨at', hat⟩ := Option.ne_none_iff_exists'.mp hlist
    obtain ⟨x, data', path, hx, hdata, hpath⟩ := h.listeners id l at' hid hat
    rw [hls, hst] at hx
    cases hx
    cases hcall.symm.trans hdata
    have hmem : id ∈ (data.listeners at'.2).values := AssocMap.mem_values.mpr ⟨path, hpath⟩
    cases hkind : at'.2 with
    | childAdded => exact hchild (hkind ▸ hmem)
    | valueUpdate => exact hvalue (hkind ▸ hmem)

/-- The callback of a stream that a link uses under `rid`. -/
theorem reqCloseCb_book (h : σ.Book (But X s (L, rid)) E O) (hself : σ.reqNames s (L, rid)) (hO : ¬O s)
    (hE : E s (L, rid) ∨ σ.reqTable (L, rid) ≠ some s) (hs : σ.reqCloseCb s L = some σ') :
    Closes s σ σ' ∧ σ'.Unlisted s ∧
      ((∃ st, σ'.stream.get s = some (.list st) ∧ ¬σ'.reqNames s (L, rid) ∧
        σ'.Book X E (fun t => O t ∨ t = s ∧ st.requesterLinks.size = 0)) ∨
      ∃ st, σ'.stream.get s = some (.invoke st) ∧ (st.requester, st.requesterRid) = (L, rid) ∧
        σ'.Book (But X s (L, rid)) E O) := by
  simp only [reqCloseCb, Option.bind_eq_bind, Option.bind_eq_some_iff] at hs
  obtain ⟨st, hst, hs⟩ := hs
  cases st with
  | list st =>
    obtain ⟨hc, st', hst', hgone, hb⟩ := brokerListReqClosed_book h hself hO hE hs
    exact ⟨hc, unlisted_of_stream hb hst' (fun _ _ hx => nomatch hx), .inl ⟨st', hst', hgone, hb⟩⟩
  | invoke st =>
    have hkey : (st.requester, st.requesterRid) = (L, rid) := by
      obtain ⟨x, hx, hk⟩ := hself
      cases hst.symm.trans hx
      exact hk
    cases hcall : st.call with
    | remote responder r =>
      simp only [hcall, Option.map_eq_some_iff] at hs
      obtain ⟨-, -, rfl⟩ := hs
      refine ⟨.refl s _, unlisted_of_stream h hst ?_, .inr ⟨st, hst, hkey, h⟩⟩
      rintro x data hx hdata
      cases hx
      cases hcall.symm.trans hdata
    | query data =>
      simp only [hcall] at hs
      obtain ⟨listener, rfl, hb, hun⟩ := queryDestroy_book h hst hcall hs
      exact ⟨.of_rest rfl rfl (fun _ _ => rfl), hun, .inr ⟨st, hst, hkey, hb⟩⟩
    | publish =>
      simp only [hcall, Option.some.injEq] at hs
      subst hs
      refine ⟨.refl s _, unlisted_of_stream h hst ?_, .inr ⟨st, hst, hkey, h⟩⟩
      rintro x data hx hdata
      cases hx
      cases hcall.symm.trans hdata

theorem Book.mono {Y F : StreamId → Key → Prop} {P : StreamId → Prop} (h : σ.Book X E O)
    (hX : ∀ t k, σ.reqNames t k → X t k → Y t k) (hE : ∀ t k, E t k → F t k) (hO : ∀ t, O t → P t) :
    σ.Book Y F P :=
  { h with
    requester := h.requester.mono (fun _ _ hn => hn) (fun t k hn hx _ => hX t k hn hx)
    requested := h.requested.mono (fun _ _ _ hn => .inl hn) hE
    responder := h.responder.mono (fun _ _ hn => hn) (fun t _ _ hx _ => hO t hx)
    owner := h.owner.mono (fun _ _ hn => hn) (fun t _ _ hx _ => hO t hx) }

/-- A list stream without requesters has no names. -/
theorem no_requesters {st : BrokerListStream} (hst : σ.stream.get s = some (.list st))
    (hsize : st.requesterLinks.size = 0) (k : Key) : ¬σ.reqNames s k := by
  rintro ⟨x, hx, hk⟩
  cases hst.symm.trans hx
  obtain ⟨i, hi⟩ := hk
  rw [AssocMap.size_eq_zero.mp hsize i] at hi
  cases hi

/-- `requester_stream_closed` leaves nothing of the stream under the rid that is closed. -/
theorem requesterStreamClosed_book (h : σ.Book (But nowhere s (L, rid)) E (fun _ => False))
    (hself : σ.reqNames s (L, rid)) (hE : E s (L, rid) ∨ σ.reqTable (L, rid) ≠ some s)
    (hlock : E s (L, rid) ∨ ∀ link, σ.link.get L = some link → link.requesterLocked = false)
    (hs : σ.requesterStreamClosed s L = some σ') :
    Closes s σ σ' ∧ σ'.Book nowhere E (fun _ => False) ∧ ¬σ'.reqNames s (L, rid) := by
  simp only [requesterStreamClosed, Option.bind_eq_bind, Option.bind_eq_some_iff] at hs
  obtain ⟨τ, hτ, st, hst, hs⟩ := hs
  have hdead : ∀ {υ : Registry}, υ.stream.get s = none → ¬υ.reqNames s (L, rid) := by
    rintro υ hυ ⟨x, hx, -⟩
    cases hυ.symm.trans hx
  obtain ⟨hc, hun, ⟨st', hst', hgone, hb⟩ | ⟨st', hst', hkey, hb⟩⟩ := reqCloseCb_book h hself (fun hf => hf) hE hτ
  · cases hst.symm.trans hst'
    simp only at hs
    split at hs
    · rename_i hsize
      cases hs
      refine ⟨hc, hb.mono (fun _ _ _ hx => hx) (fun _ _ he => he) ?_, hgone⟩
      rintro t (hf | ⟨-, hzero⟩)
      · exact hf
      · exact absurd hzero (Nat.pos_iff_ne_zero.mp hsize)
    · rename_i hsize
      have hzero : st'.requesterLinks.size = 0 := Nat.eq_zero_of_not_pos hsize
      have hb' : τ.Book (fun t k => nowhere t k ∨ t = s) E (fun t => False ∨ t = s) :=
        hb.mono (fun _ _ _ hx => hx.elim) (fun _ _ he => he) (fun t ht => ht.imp id And.left)
      obtain ⟨hfree, hc', hnone⟩ := brokerStreamFree_book hb' (fun t k _ hk => absurd hk (no_requesters hst' hzero k))
        (fun k hk => absurd hk (no_requesters hst' hzero k)) hun hs
      exact ⟨hc.trans hc', hfree.mono (fun _ _ _ hx => hx.2) (fun _ _ he => he) (fun _ ht => ht.2), hdead hnone⟩
  · cases hst.symm.trans hst'
    have hnames : ∀ k, τ.reqNames s k → k = (L, rid) := by
      rintro k ⟨x, hx, hk⟩
      cases hst'.symm.trans hx
      exact Eq.trans (Eq.symm hk) hkey
    have hself' : τ.reqNames s (L, rid) := ⟨_, hst', hkey⟩
    have hb' : τ.Book (fun t k => nowhere t k ∨ t = s) E (fun t => False ∨ t = s) :=
      hb.mono (fun _ _ _ hx => hx.elim (fun hf => hf.elim) (fun hx => .inr hx.1)) (fun _ _ he => he) (fun t ht => ht.elim)
    obtain ⟨hfree, hc', hnone⟩ := brokerStreamFree_book hb' (fun t k hts hk ht => by
      rcases hb.requester.only hk ht hts with hf | ⟨heq, -⟩
      · exact hf
      · exact absurd heq hts) (fun k hk => by
      rw [hnames k hk]
      refine hlock.imp id (fun hu link hl => ?_)
      obtain ⟨link', hl', hshrink⟩ := hc.link.get_rev hl
      exact hshrink.requesterLocked.trans (hu link' hl')) hun hs
    exact ⟨hc.trans hc', hfree.mono (fun _ _ _ hx => hx.2) (fun _ _ he => he) (fun _ ht => ht.2), hdead hnone⟩

/-- The state between two callbacks of the event loop. -/
structure Registered (σ : Registry) : Prop where
  book : σ.Book nowhere nowhere (fun _ => False)
  unlocked : σ.UnlockedBut (fun _ => False)

/-! ## A link is freed -/

/-- In the first loop over the requester entries of `L`, with the entries still to come. -/
structure FirstLoop (L : LinkId) (d : DownId) (rest : List (Nat × Option StreamId)) (σ : Registry) : Prop where
  book : σ.Book nowhere nowhere (fun _ => False)
  unlocked : σ.UnlockedBut (· = L)
  nodup : (rest.map Prod.fst).Nodup
  link : ∃ link, σ.link.get L = some link ∧ link.node = d ∧ link.requesterLocked = true ∧ link.responderLocked = false ∧
    (∀ e ∈ rest, link.requesterStreams.get e.1 = some e.2) ∧
    ∀ r x, link.requesterStreams.get r = some x → x = none ∨ (r, x) ∈ rest

theorem FirstLoop.step {e : Nat × Option StreamId} {rest : List (Nat × Option StreamId)} {d : DownId} (h : FirstLoop L d (e :: rest) σ)
    (hs : closeRequesterEntry L σ e = some σ') : FirstLoop L d rest σ' := by
  obtain ⟨rid, x⟩ := e
  simp only [closeRequesterEntry, Option.bind_eq_bind, Option.bind_eq_some_iff, Option.some.injEq] at hs
  obtain ⟨s, rfl, τ, hτ, rfl⟩ := hs
  obtain ⟨link, hL, hnode, hlock, hopen, hrest, hall⟩ := h.link
  obtain ⟨hnot, hnodup⟩ := List.nodup_cons.mp h.nodup
  have hentry : σ.reqTable (L, rid) = some s := by
    simp [reqTable, hL, hrest (rid, some s) List.mem_cons_self]
  have hself : σ.reqNames s (L, rid) := (h.book.requested s _ hentry).resolve_right (fun hf => hf)
  obtain ⟨hc, hb, hgone⟩ := requesterStreamClosed_book (E := fun t k => t = s ∧ k = (L, rid))
    (h.book.mono (fun _ _ _ hx => hx.elim) (fun _ _ he => he.elim) (fun _ ht => ht)) hself (.inl ⟨rfl, rfl⟩)
    (.inl ⟨rfl, rfl⟩) hτ
  obtain ⟨link', hL', hshrink⟩ := hc.link.get hL
  have hkept := hshrink.requesterKept hlock
  have hentry' : τ.reqTable (L, rid) = some s := by
    simp [reqTable, hL', hkept, hrest (rid, some s) List.mem_cons_self]
  have hget : (τ.setRequester L rid none).link.get L
      = some { link' with requesterStreams := link'.requesterStreams.set rid none } := by
    simp [setRequester, modLink, hL']
  refine ⟨setRequester_book hb hL' ?_ ?_, ?_, hnodup, _, hget, hshrink.node.trans hnode, ?_, ?_, ?_, ?_⟩
  · refine hb.requester.erase (fun _ _ hn => hn) (fun t ht => ?_) (fun _ _ _ hx => hx)
    -- only the stream that was just closed was filed there
    have hts := hb.requester.filed ht (fun hf => hf)
    exact hgone (Option.some.inj (hts.symm.trans hentry') ▸ ht)
  · exact hb.requested.erase (fun _ _ _ hn => .inl hn) (fun t k hne he => absurd he.2 hne)
  · intro l link₁ hl hne
    have hl' : τ.link.get l = some link₁ := by
      have hmod : (τ.link.modify L _).get l = some link₁ := hl
      rwa [Heap.get_modify_ne hne] at hmod
    exact hc.unlocked h.unlocked l link₁ hl' hne
  · exact hshrink.requesterLocked.trans hlock
  · exact hshrink.responderLocked.trans hopen
  · intro e he
    have hne : e.1 ≠ rid := by
      intro heq
      have hmem : e.1 ∈ rest.map Prod.fst := List.mem_map_of_mem he
      exact hnot (heq ▸ hmem)
    rw [AssocMap.get_set_ne hne, hkept]
    exact hrest e (List.mem_cons_of_mem _ he)
  · intro r x hx
    rw [AssocMap.get_set] at hx
    split at hx
    · exact .inl (Option.some.inj hx).symm
    · rename_i hne
      rw [hkept] at hx
      refine (hall r x hx).imp id (fun hmem => (List.mem_cons.mp hmem).resolve_left ?_)
      rintro heq
      exact hne (congrArg Prod.fst heq)

/-- In the second loop, over the responder entries. All requester entries of `L` are NULL by now. -/
structure SecondLoop (L : LinkId) (d : DownId) (rest : List (Nat × Option StreamId)) (σ : Registry) : Prop where
  book : σ.Book nowhere nowhere (fun _ => False)
  unlocked : σ.UnlockedBut (· = L)
  nodup : (rest.map Prod.fst).Nodup
  link : ∃ link, σ.link.get L = some link ∧ link.node = d ∧ link.requesterLocked = true ∧ link.responderLocked = true ∧
    (∀ r x, link.requesterStreams.get r = some x → x = none) ∧
    (∀ e ∈ rest, link.responderStreams.get e.1 = some e.2) ∧
    ∀ r x, link.responderStreams.get r = some x → x = none ∨ (r, x) ∈ rest

/-- While the responder table of `L` is locked, only an invoke that was passed on is answered there. -/
theorem respNames_locked {link : RemoteDSLink} (hL : σ.link.get L = some link) (hlock : link.responderLocked = true)
    {r : Nat} (hn : σ.respNames s (L, r)) : ∃ st, σ.stream.get s = some (.invoke st) ∧ st.call = .remote L r := by
  obtain ⟨st, hst, hk⟩ := hn
  cases st with
  | invoke st => exact ⟨st, hst, hk⟩
  | list st =>
    obtain ⟨d, -, hopen, -⟩ := hk
    simp only [openLink, Option.bind_eq_bind, Option.bind_eq_some_iff] at hopen
    obtain ⟨node, -, l, -, link', hl, hif⟩ := hopen
    split at hif
    · cases hif
    · rename_i hunlocked
      cases hif
      cases hL.symm.trans hl
      exact absurd hlock hunlocked

/-- Closing the stream of an entry in the second loop. -/
theorem responderStreamClosed_book {link : RemoteDSLink} (h : σ.Book nowhere nowhere (fun _ => False))
    (hu : σ.UnlockedBut (· = L)) (hL : σ.link.get L = some link) (hlock : link.responderLocked = true)
    (hnull : ∀ r x, link.requesterStreams.get r = some x → x = none) (hs : σ.responderStreamClosed s = some σ') :
    Closes s σ σ' ∧ σ'.Book nowhere nowhere (fun _ => False) ∧ ∀ r, ¬σ'.respNames s (L, r) := by
  simp only [responderStreamClosed, Option.bind_eq_bind, Option.bind_eq_some_iff] at hs
  obtain ⟨st, hst, hs⟩ := hs
  have hkeep : (∀ x, st = .invoke x → ∀ responder r, x.call ≠ .remote responder r) → ∀ r, ¬σ.respNames s (L, r) := by
    intro hno r hn
    obtain ⟨x, hx, hcall⟩ := respNames_locked hL hlock hn
    exact hno x (Option.some.inj (hst.symm.trans hx)) L r hcall
  cases st with
  | list st =>
    cases hs
    exact ⟨.refl s _, h, hkeep (fun x hx => nomatch hx)⟩
  | invoke st =>
    cases hcall : st.call with
    | remote responder rr =>
      simp only [hcall, Option.bind_eq_some_iff] at hs
      obtain ⟨-, -, hs⟩ := hs
      obtain ⟨hb, hc, hnone⟩ := brokerStreamFree_book
        (h.mono (fun _ _ _ hx => hx.elim) (fun _ _ he => he) (fun _ ht => ht.elim))
        (fun t k hts hk ht => h.requester.only hk ht hts) (fun k hk => by
          refine .inr (fun link' hl' => ?_)
          -- a requester of the stream is not `L`, whose entries are all NULL
          refine (hu k.1 link' hl' ?_).1
          rintro rfl
          have hentry := h.requester.filed hk (fun hf => hf)
          cases hL.symm.trans hl'
          simp only [reqTable, hL, Option.bind_some] at hentry
          cases hget : link.requesterStreams.get k.2 with
          | none => simp [hget] at hentry
          | some x => simp [hget, hnull k.2 x hget] at hentry)
        (unlisted_of_stream h hst (by
          rintro x data hx hdata
          cases hx
          cases hcall.symm.trans hdata)) hs
      refine ⟨hc, hb.mono (fun _ _ _ hx => hx.2) (fun _ _ he => he) (fun _ ht => ht.2), ?_⟩
      rintro r ⟨x, hx, -⟩
      cases hnone.symm.trans hx
    | _ =>
      simp only [hcall, Option.some.injEq] at hs
      subst hs
      refine ⟨.refl s _, h, hkeep ?_⟩
      rintro x hx responder r hr
      cases hx
      cases hcall.symm.trans hr

theorem SecondLoop.step {e : Nat × Option StreamId} {rest : List (Nat × Option StreamId)} {d : DownId} (h : SecondLoop L d (e :: rest) σ)
    (hs : closeResponderEntry L σ e = some σ') : SecondLoop L d rest σ' := by
  obtain ⟨rid, x⟩ := e
  simp only [closeResponderEntry, Option.bind_eq_bind, Option.bind_eq_some_iff, Option.some.injEq] at hs
  obtain ⟨s, rfl, τ, hτ, rfl⟩ := hs
  obtain ⟨link, hL, hnode, hlock, hlock', hnull, hrest, hall⟩ := h.link
  obtain ⟨hnot, hnodup⟩ := List.nodup_cons.mp h.nodup
  obtain ⟨hc, hb, hgone⟩ := responderStreamClosed_book h.book h.unlocked hL hlock' hnull hτ
  obtain ⟨link', hL', hshrink⟩ := hc.link.get hL
  have hkept := hshrink.responderKept hlock'
  have hentry : τ.respTable (L, rid) = some s := by
    simp [respTable, hL', hkept, hrest (rid, some s) List.mem_cons_self]
  have hget : (τ.setResponder L rid none).link.get L
      = some { link' with responderStreams := link'.responderStreams.set rid none } := by
    simp [setResponder, modLink, hL']
  refine ⟨setResponder_book hb hL' ?_ (fun _ ht => ht) (fun _ hx => by cases hx), ?_, hnodup, _, hget, hshrink.node.trans hnode, ?_, ?_, ?_, ?_, ?_⟩
  · refine hb.responder.erase (fun _ _ hn => hn) (fun t ht => ?_) (fun _ _ _ hx => hx)
    have hts := hb.responder.filed ht (fun hf => hf)
    exact hgone rid (Option.some.inj (hts.symm.trans hentry) ▸ ht)
  · intro l link₁ hl hne
    have hl' : τ.link.get l = some link₁ := by
      have hmod : (τ.link.modify L _).get l = some link₁ := hl
      rwa [Heap.get_modify_ne hne] at hmod
    exact hc.unlocked h.unlocked l link₁ hl' hne
  · exact hshrink.requesterLocked.trans hlock
  · exact hshrink.responderLocked.trans hlock'
  · intro r y hy
    rw [hshrink.requesterKept hlock] at hy
    exact hnull r y hy
  · intro e he
    have hne : e.1 ≠ rid := by
      intro heq
      have hmem : e.1 ∈ rest.map Prod.fst := List.mem_map_of_mem he
      exact hnot (heq ▸ hmem)
    rw [AssocMap.get_set_ne hne, hkept]
    exact hrest e (List.mem_cons_of_mem _ he)
  · intro r y hy
    rw [AssocMap.get_set] at hy
    split at hy
    · exact .inl (Option.some.inj hy).symm
    · rename_i hne
      rw [hkept] at hy
      refine (hall r y hy).imp id (fun hmem => (List.mem_cons.mp hmem).resolve_left ?_)
      rintro heq
      exact hne (congrArg Prod.fst heq)

theorem openLink_eq_some {d : DownId} : σ.openLink d = some L ↔ ∃ node link, σ.dnode.get d = some node ∧
    node.link = some L ∧ σ.link.get L = some link ∧ link.responderLocked = false := by
  simp only [openLink, Option.bind_eq_bind, Option.bind_eq_some_iff]
  constructor
  · rintro ⟨node, hd, l, hl, link, hL, hif⟩
    split at hif
    · cases hif
    · rename_i hlock
      cases hif
      exact ⟨node, link, hd, hl, hL, by simpa using hlock⟩
  · rintro ⟨node, link, hd, hl, hL, hlock⟩
    exact ⟨node, hd, L, hl, link, hL, by simp [hlock]⟩

/-- Fewer open links, fewer names. -/
theorem respNames_mono (hstream : σ'.stream = σ.stream) (hopen : ∀ d l, σ'.openLink d = some l → σ.openLink d = some l)
    (t : StreamId) (k : Key) (hn : σ'.respNames t k) : σ.respNames t k := by
  obtain ⟨st, ht, hk⟩ := hn
  refine ⟨st, hstream ▸ ht, ?_⟩
  cases st with
  | list st =>
    obtain ⟨d, hd, hl, hr⟩ := hk
    exact ⟨d, hd, hopen d _ hl, hr⟩
  | invoke st => exact hk

/-- Locking the requester table of a link. -/
theorem firstLoop_start {link : RemoteDSLink} (h : σ.Registered) (hL : σ.link.get L = some link) :
    FirstLoop L link.node link.requesterStreams.entries (σ.modLink L (fun link => { link with requesterLocked := true })) := by
  have hreq : (σ.modLink L (fun link => { link with requesterLocked := true })).reqTable = σ.reqTable :=
    reqTable_same (fun _ => rfl)
  have hresp : (σ.modLink L (fun link => { link with requesterLocked := true })).respTable = σ.respTable :=
    respTable_same (fun _ => rfl)
  have hagree : Heap.Rel RemoteDSLink.Agree σ.link (σ.modLink L (fun link => { link with requesterLocked := true })).link :=
    modLink_agree (fun _ => ⟨rfl, rfl⟩)
  refine ⟨h.book.of_links hagree (fun _ => rfl) rfl rfl (hreq ▸ h.book.requester) (hreq ▸ h.book.requested) ?_ h.book.owner
    h.book.owned (hresp ▸ h.book.answered), ?_, link.requesterStreams.nodup, { link with requesterLocked := true }, by simp [modLink, hL], rfl, rfl,
    (h.unlocked L link hL (fun hf => hf)).2, fun e he => AssocMap.mem_entries.mp he,
    fun r x hx => .inr (AssocMap.mem_entries.mpr hx)⟩
  · rw [respNames_modLink (fun _ => by rfl), respTable_same (fun _ => by rfl)]
    exact h.book.responder
  · intro l link' hl hne
    have hmod : (σ.link.modify L _).get l = some link' := hl
    rw [Heap.get_modify_ne hne] at hmod
    exact h.unlocked l link' hmod (fun hf => hf)

/-- Locking the responder table as well. -/
theorem secondLoop_start {link : RemoteDSLink} {d : DownId} (h : FirstLoop L d [] σ) (hL : σ.link.get L = some link) :
    SecondLoop L d link.responderStreams.entries (σ.modLink L (fun link => { link with responderLocked := true })) := by
  obtain ⟨link', hL', hnode, hlock, -, -, hall⟩ := h.link
  cases hL.symm.trans hL'
  have hreq : (σ.modLink L (fun link => { link with responderLocked := true })).reqTable = σ.reqTable :=
    reqTable_same (fun _ => rfl)
  have hresp : (σ.modLink L (fun link => { link with responderLocked := true })).respTable = σ.respTable :=
    respTable_same (fun _ => rfl)
  have hagree : Heap.Rel RemoteDSLink.Agree σ.link (σ.modLink L (fun link => { link with responderLocked := true })).link :=
    modLink_agree (fun _ => ⟨rfl, rfl⟩)
  refine ⟨h.book.of_links hagree (fun _ => rfl) rfl rfl (hreq ▸ h.book.requester) (hreq ▸ h.book.requested) ?_ h.book.owner
    h.book.owned (hresp ▸ h.book.answered), ?_, link.responderStreams.nodup, { link with responderLocked := true }, by simp [modLink, hL], hnode, hlock, rfl,
    fun r x hx => (hall r x hx).resolve_right (by simp), fun e he => AssocMap.mem_entries.mp he,
    fun r x hx => .inr (AssocMap.mem_entries.mpr hx)⟩
  · rw [respTable_same (fun _ => by rfl)]
    refine h.book.responder.mono (respNames_mono rfl ?_) (fun _ _ _ hx _ => hx)
    intro d l hl
    obtain ⟨node, link', hd, hnl, hget, hunlocked⟩ := openLink_eq_some.mp hl
    have hmod : (σ.link.modify L _).get l = some link' := hget
    rw [Heap.get_modify] at hmod
    split at hmod
    · rename_i hl
      rw [hL] at hmod
      cases hmod
      cases hunlocked
    · exact openLink_eq_some.mpr ⟨node, link', hd, hnl, hmod, hunlocked⟩
  · intro l link' hl hne
    have hmod : (σ.link.modify L _).get l = some link' := hl
    rw [Heap.get_modify_ne hne] at hmod
    exact h.unlocked l link' hmod hne

/-- After both loops the link is freed and its node forgets it. -/
theorem SecondLoop.finish {d : DownId} (h : SecondLoop L d [] σ) :
    (({ σ with link := σ.link.free L } : Registry).modDnode d (fun node => { node with link := none })).Registered := by
  obtain ⟨link, hL, rfl, -, -, hnull, -, hall⟩ := h.link
  set τ := ({ σ with link := σ.link.free L } : Registry).modDnode link.node (fun node => { node with link := none })
  have hlink : ∀ l link', τ.link.get l = some link' ↔ l ≠ L ∧ σ.link.get l = some link' :=
    fun l link' => Heap.get_free_eq_some
  have hdnode : ∀ d node', τ.dnode.get d = some node' → ∃ node, σ.dnode.get d = some node ∧
      (d = link.node ∧ node'.link = none ∨ d ≠ link.node ∧ node' = node) := by
    intro d node' hd
    have hmod : (σ.dnode.modify link.node _).get d = some node' := hd
    rw [Heap.get_modify] at hmod
    split at hmod
    · rename_i hdn
      obtain ⟨node, hnode, rfl⟩ := Option.map_eq_some_iff.mp hmod
      exact ⟨node, hdn ▸ hnode, .inl ⟨hdn, rfl⟩⟩
    · rename_i hdn
      exact ⟨node', hmod, .inr ⟨hdn, rfl⟩⟩
  -- the link goes with its entries, all of which are null by now
  have hreq : τ.reqTable = σ.reqTable := by
    funext k
    show ((σ.link.free L).get k.1).bind _ = (σ.link.get k.1).bind _
    rw [Heap.get_free]
    split
    · rename_i hk
      rw [hk, hL]
      cases hget : link.requesterStreams.get k.2 with
      | none => simp [hget]
      | some x => simp [hget, hnull k.2 x hget]
    · rfl
  have hresp : τ.respTable = σ.respTable := by
    funext k
    show ((σ.link.free L).get k.1).bind _ = (σ.link.get k.1).bind _
    rw [Heap.get_free]
    split
    · rename_i hk
      rw [hk, hL]
      cases hget : link.responderStreams.get k.2 with
      | none => simp [hget]
      | some x => simp [hget, (hall k.2 x hget).resolve_right (by simp)]
    · rfl
  have hown : τ.ownTable = σ.ownTable := by
    funext k
    obtain ⟨ref, p⟩ := k
    cases ref with
    | regular n => rfl
    | downstream d =>
      show ((σ.dnode.modify link.node _).get d).bind _ = (σ.dnode.get d).bind _
      rw [Heap.get_modify]
      split
      · rename_i hd
        subst hd
        cases σ.dnode.get link.node <;> rfl
      · rfl
  -- no stream names the link any more
  have hunused : ∀ t r, ¬σ.reqNames t (L, r) := by
    intro t r hn
    have hentry := h.book.requester.filed hn (fun hf => hf)
    simp only [reqTable, hL, Option.bind_some] at hentry
    cases hget : link.requesterStreams.get r with
    | none => simp [hget] at hentry
    | some x => simp [hget, hnull r x hget] at hentry
  refine ⟨⟨hreq ▸ h.book.requester, hreq ▸ h.book.requested, ?_, hown ▸ h.book.owner, hown ▸ h.book.owned, hresp ▸ h.book.answered, ?_, ?_, ?_,
    h.book.listeners, h.book.entered⟩, ?_⟩
  · rw [hresp]
    refine h.book.responder.mono (respNames_mono rfl ?_) (fun _ _ _ hx _ => hx)
    intro d l hl
    obtain ⟨node', link', hd, hnl, hget, hunlocked⟩ := openLink_eq_some.mp hl
    obtain ⟨node, hd', ⟨-, hnone⟩ | ⟨-, rfl⟩⟩ := hdnode d node' hd
    · cases hnone.symm.trans hnl
    · exact openLink_eq_some.mpr ⟨node', link', hd', hnl, ((hlink l link').mp hget).2, hunlocked⟩
  · intro t st dsId k ht hk
    obtain ⟨link', hl, hid⟩ := h.book.dsId t st dsId k ht hk
    refine ⟨link', (hlink _ _).mpr ⟨?_, hl⟩, hid⟩
    rintro rfl
    exact hunused t k.2 ⟨_, ht, dsId, hk⟩
  · intro d node' l hd hnl
    obtain ⟨node, hd', ⟨-, hnone⟩ | ⟨hne, rfl⟩⟩ := hdnode d node' hd
    · cases hnone.symm.trans hnl
    · obtain ⟨link', hl, hn⟩ := h.book.nodeLink d node' l hd' hnl
      refine ⟨link', (hlink _ _).mpr ⟨?_, hl⟩, hn⟩
      rintro rfl
      cases hL.symm.trans hl
      exact hne hn.symm
  · intro l link' hl
    obtain ⟨hne, hl⟩ := (hlink l link').mp hl
    obtain ⟨node, hd, hnl⟩ := h.book.linkNode l link' hl
    obtain ⟨node₀, hd₀, hnl₀⟩ := h.book.linkNode L link hL
    refine ⟨node, ?_, hnl⟩
    -- two links at one node would be the link of that node
    have hother : link'.node ≠ link.node := by
      intro heq
      cases hd.symm.trans (heq ▸ hd₀)
      exact hne (Option.some.inj (hnl.symm.trans hnl₀))
    show (σ.dnode.modify link.node _).get link'.node = some node
    rw [Heap.get_modify_ne hother, hd]
  · intro l link' hl _
    obtain ⟨hne, hl⟩ := (hlink l link').mp hl
    exact h.unlocked l link' hl hne

/-- `broker_close_link` leaves the registry consistent and the link gone. -/
theorem brokerCloseLink_registered (h : σ.Registered) (hs : σ.brokerCloseLink L = some σ') :
    σ'.Registered ∧ σ'.link.get L = none := by
  simp only [brokerCloseLink, brokerRemoteDslinkFree, Option.bind_eq_bind, Option.bind_eq_some_iff, Option.some.injEq]
    at hs
  obtain ⟨link, hL, υ, ⟨link', hL', τ, hτ, link₁, hL₁, ρ, hρ, rfl⟩, rfl⟩ := hs
  cases hL.symm.trans hL'
  have h₁ := foldlM_rest (FirstLoop L link.node) (fun _ _ _ _ hi hs => hi.step hs) hτ (firstLoop_start h hL)
  have h₂ := foldlM_rest (SecondLoop L link.node) (fun _ _ _ _ hi hs => hi.step hs) hρ (secondLoop_start h₁ hL₁)
  exact ⟨h₂.finish, Heap.get_free_self ..⟩

end Closing

end Registry

end DSLink
