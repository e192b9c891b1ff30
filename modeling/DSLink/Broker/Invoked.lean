import DSLink.Broker.Opened

/-!
# `Broker.Invoked` — the handlers that open an invoke stream

A query and the publish action file their stream under the rid of the request without a look at the table, so the
rid has to be free. An invoke that is passed on looks, and closes what it finds.

## Contents
- `openInvoke_registered`, a stream that is answered by the broker itself.
- `addListeners_registered`, the listeners of a query, and `queryInvoke_registered`, `queryChildAdded_registered`.
- `brokerMsgHandleInvoke_registered`.
-/

namespace DSLink

namespace Registry

open CrossIndex

variable {σ σ' τ : Registry} {X E : StreamId → Key → Prop} {O : StreamId → Prop} {s : StreamId} {L : LinkId} {rid : Nat}

/-! ## Invoke streams of the broker -/

/-- The new stream is entered under a rid that nobody else names. -/
theorem fileInvoke_book {st : BrokerInvokeStream} {link : RemoteDSLink} (h : σ.Book (fun t k => t = s ∧ k = (L, rid)) nowhere O)
    (hL : σ.link.get L = some link) (hst : σ.stream.get s = some (.invoke st)) (hkey : (st.requester, st.requesterRid) = (L, rid))
    (hnone : σ.reqTable (L, rid) = none) : (σ.setRequester L rid (some s)).Book nowhere nowhere O := by
  refine setRequester_book h hL ?_ ?_
  · refine h.requester.insert (fun _ _ _ hn => hn) (fun t ht => ?_) (fun t l _ hx hne => absurd hx.2 hne)
    by_contra hts
    have hfiled := h.requester.filed ht (fun hx => hts hx.1)
    cases hnone.symm.trans hfiled
  · exact h.requested.insert (fun _ _ _ hn => .inl hn) (fun _ _ _ he => he) ⟨_, hst, hkey⟩

/-- An invoke stream that is answered by the broker itself. -/
theorem openInvoke_registered {link : RemoteDSLink} {c : InvokeCall} (h : σ.Registered) (hL : σ.link.get L = some link)
    (hcall : ∀ l r, c ≠ .remote l r)
    (hempty : ∀ data kind path, c = .query data → (data.listeners kind).get path = none) (hfree : σ.reqTable (L, rid) = none) :
    (({ σ with stream := σ.stream.alloc (.invoke ⟨L, rid, c⟩) } : Registry).setRequester L rid
      (some σ.stream.next)).Registered := by
  have hb : ({ σ with stream := σ.stream.alloc (.invoke ⟨L, rid, c⟩) } : Registry).Book
      (fun t k => t = σ.stream.next ∧ k = (L, rid)) nowhere (fun t => t = σ.stream.next) := by
    refine alloc_book h.book (fun _ _ hx => hx.elim) (fun _ hf => hf.elim) rfl ?_ ?_ (fun x hx => nomatch hx) ?_
    · rintro k hk
      have hk : (L, rid) = k := hk
      subst hk
      exact ⟨hfree, rfl, rfl⟩
    · rintro k hk
      exact absurd hk (hcall _ _)
    · rintro x data kind path hx hdata
      cases hx
      exact hempty data kind path hdata
  have hself : (σ.stream.alloc (.invoke ⟨L, rid, c⟩)).get σ.stream.next = some (.invoke ⟨L, rid, c⟩) :=
    Heap.get_alloc_next ..
  refine ⟨fileInvoke_book (hb.settle ?_ ?_) hL hself rfl hfree, ?_⟩
  · rintro t k rfl hn
    rw [alloc_names, if_pos rfl] at hn
    exact absurd hn (hcall _ _)
  · rintro t k rfl hn
    rw [alloc_ownNames, if_pos rfl] at hn
    obtain ⟨x, hx, -⟩ := hn
    cases hx
  · have hu : ({ σ with stream := σ.stream.alloc (.invoke ⟨L, rid, c⟩) } : Registry).UnlockedBut (fun _ => False) :=
      h.unlocked
    exact hu.modLink (fun _ => rfl) (fun _ => rfl)

theorem onPublishInvoked_registered {link : RemoteDSLink} (h : σ.Registered) (hL : σ.link.get L = some link)
    (hfree : σ.reqTable (L, rid) = none) : (σ.onPublishInvoked L rid).Registered :=
  openInvoke_registered h hL (fun _ _ hx => nomatch hx) (fun _ _ _ hx => nomatch hx) hfree

/-! ## Listeners -/

/-- Where the listener of a query is entered: under the path of the node, in the map of its kind. -/
def slot (σ : Registry) (visit : NodeId × ListenerKind) : Option (CString × ListenerKind) :=
  (σ.node.get visit.1).map (fun node => (node.path, visit.2))

/-- What the map of a query holds under a path. -/
def queryListener (σ : Registry) (s : StreamId) (at' : CString × ListenerKind) : Option ListenerId := do
  let st ← σ.invokeStream s
  match st.call with
  | .query data => (data.listeners at'.2).get at'.1
  | _ => none

/-- The query holds no linked listener under this path. -/
def Vacant (σ : Registry) (s : StreamId) (at' : CString × ListenerKind) : Prop :=
  ∀ id ∈ σ.queryListener s at', ∀ listener ∈ σ.listener.get id, listener.list = none

/-- Where a query may listen: at different paths, none of which it listens to. -/
def MayListen (σ : Registry) (s : StreamId) (visits : List (NodeId × ListenerKind)) : Prop :=
  (visits.map σ.slot).Nodup ∧ ∀ visit ∈ visits, ∀ at' ∈ σ.slot visit, σ.Vacant s at'

theorem invokeStream_eq_some {st : BrokerInvokeStream} :
    σ.invokeStream s = some st ↔ σ.stream.get s = some (.invoke st) := by
  unfold invokeStream
  constructor
  · intro h
    split at h
    · cases h
      assumption
    · cases h
  · intro h
    rw [h]

/-- One `listener_add`. -/
theorem addListener_book {visit : NodeId × ListenerKind} {at' : CString × ListenerKind} (h : σ.Registered)
    (hslot : σ.slot visit = some at') (hvacant : σ.Vacant s at') (hs : addListener s σ visit = some σ') :
    σ'.Registered ∧ σ'.node = σ.node ∧ ∀ at'', at'' ≠ at' → σ.Vacant s at'' → σ'.Vacant s at'' := by
  simp only [addListener, Option.bind_eq_bind, Option.bind_eq_some_iff] at hs
  obtain ⟨node, hnode, st, hinvoke, hs⟩ := hs
  obtain rfl : (node.path, visit.2) = at' := by simpa [slot, hnode] using hslot
  have hst := invokeStream_eq_some.mp hinvoke
  split at hs
  case h_2 => cases hs
  rename_i data hcall
  cases hs
  have hvacant : ∀ id, (data.listeners visit.2).get node.path = some id → ∀ listener, σ.listener.get id = some listener →
      listener.list = none := by
    intro id hid listener hl
    exact hvacant id (by simpa [queryListener, hinvoke, hcall] using hid) listener hl
  set data' : ParsedQuery := ⟨fun kind => if kind = visit.2 then (data.listeners kind).set node.path σ.listener.next
    else data.listeners kind⟩ with hdata'
  set τ : Registry := { σ.setStream s (.invoke { st with call := .query data' }) with
    listener := σ.listener.alloc ⟨s, some visit⟩ } with hτ
  have hget : ∀ t, τ.stream.get t = if t = s then some (.invoke { st with call := .query data' }) else σ.stream.get t :=
    get_setStream hst _
  have hlisteners : ∀ kind path, (data'.listeners kind).get path =
      if (path, kind) = (node.path, visit.2) then some σ.listener.next else (data.listeners kind).get path := by
    intro kind path
    rw [hdata']
    by_cases hk : kind = visit.2
    · by_cases hp : path = node.path
      · simp [hk, hp]
      · simp [hk, hp, AssocMap.get_set_ne hp]
    · simp [hk]
  have hreq : τ.reqNames = σ.reqNames := setStream_reqNames hst rfl
  have hresp : ∀ t k, τ.respNames t k → σ.respNames t k := by
    intro t k hk
    -- a query is answered on no link, before and after
    exact setStream_respNames hst (fun _ hx => by cases hx) t k (respNames_mono rfl (fun _ _ hl => hl) t k hk)
  have hown : τ.ownNames = σ.ownNames := setInvoke_ownNames hst
  have hdead : τ.Dead = σ.Dead := setStream_dead hst _
  refine ⟨⟨⟨?_, ?_, ?_, ?_, ?_, ?_, ?_, h.book.nodeLink, h.book.linkNode, ?_, ?_⟩, h.unlocked⟩, rfl, ?_⟩
  · exact hreq ▸ h.book.requester
  · exact hreq ▸ h.book.requested
  · exact h.book.responder.mono hresp (fun _ _ _ hx _ => hx)
  · exact hown ▸ h.book.owner
  · rw [hown, hdead]
    exact h.book.owned
  · intro t k hk
    obtain ⟨hlt, hanswer⟩ := h.book.answered t k hk
    refine ⟨hlt, fun x hx => ?_⟩
    rw [hget] at hx
    split at hx
    · -- a query is answered on no link
      rename_i hts
      cases hcall.symm.trans (hanswer st (hts ▸ hst))
    · exact hanswer x hx
  · intro t x dsId k hx hk
    rw [hget] at hx
    split at hx
    · cases hx
    · exact h.book.dsId t x dsId k hx hk
  · intro id listener at'' hid hat
    have hid : (σ.listener.alloc ⟨s, some visit⟩).get id = some listener := hid
    rw [Heap.get_alloc] at hid
    split at hid
    · rename_i hnext
      cases hid
      cases hat
      refine ⟨_, data', node.path, by rw [hget, if_pos rfl], rfl, ?_⟩
      rw [hlisteners, if_pos rfl, hnext]
    · obtain ⟨x, old, path, hx, hold, hpath⟩ := h.book.listeners id listener at'' hid hat
      by_cases hts : listener.stream = s
      · rw [hts] at hx ⊢
        cases hst.symm.trans hx
        cases hcall.symm.trans hold
        refine ⟨_, data', path, by rw [hget, if_pos rfl], rfl, ?_⟩
        rw [hlisteners, if_neg]
        · exact hpath
        · -- what is replaced is not linked
          intro heq
          obtain ⟨rfl, hkind⟩ := Prod.mk.inj heq
          cases (hvacant id (hkind ▸ hpath) listener hid).symm.trans hat
      · exact ⟨x, old, path, by rw [hget, if_neg hts]; exact hx, hold, hpath⟩
  · intro t x d kind path id ht hd hid
    show id < σ.listener.next + 1
    rw [hget] at ht
    split at ht
    · cases ht
      cases hd
      rw [hlisteners] at hid
      split at hid
      · cases hid
        exact Nat.lt_succ_self _
      · exact Nat.lt_succ_of_lt (h.book.entered s st data kind path id hst hcall hid)
    · exact Nat.lt_succ_of_lt (h.book.entered t x d kind path id ht hd hid)
  · intro at'' hne hv id hid listener hl
    have hself : τ.invokeStream s = some { st with call := .query data' } := by
      rw [invokeStream_eq_some, hget, if_pos rfl]
    have hid : (data'.listeners at''.2).get at''.1 = some id := by simpa [queryListener, hself] using hid
    rw [hlisteners, if_neg hne] at hid
    have hl : (σ.listener.alloc ⟨s, some visit⟩).get id = some listener := hl
    rw [Heap.get_alloc] at hl
    split at hl
    · rename_i hnext
      exact absurd hnext (Nat.ne_of_lt (h.book.entered s st data _ _ id hst hcall hid))
    · exact hv id (by simpa [queryListener, hinvoke, hcall] using hid) listener hl

/-- The calls of `listener_add` for one event. -/
theorem addListeners_registered {visits : List (NodeId × ListenerKind)} (h : σ.Registered) (hmay : σ.MayListen s visits)
    (hs : visits.foldlM (addListener s) σ = some σ') : σ'.Registered := by
  have hloop := foldlM_rest (fun rest (τ : Registry) => τ.Registered ∧ τ.node = σ.node ∧ (rest.map σ.slot).Nodup ∧
      ∀ visit ∈ rest, ∀ at' ∈ σ.slot visit, τ.Vacant s at') (fun τ visit rest υ hi hυ => by
    obtain ⟨hreg, hnode, hnodup, hvacant⟩ := hi
    rw [List.map_cons, List.nodup_cons] at hnodup
    have hslotτ : ∀ v, τ.slot v = σ.slot v := by
      intro v
      unfold slot
      rw [hnode]
    obtain ⟨at', hat⟩ : ∃ at', σ.slot visit = some at' := by
      have hυ := hυ
      simp only [addListener, Option.bind_eq_bind, Option.bind_eq_some_iff] at hυ
      obtain ⟨node, hget, -⟩ := hυ
      exact ⟨(node.path, visit.2), by simp [slot, ← hnode, hget]⟩
    obtain ⟨hreg', hnode', hother⟩ := addListener_book hreg ((hslotτ visit).trans hat)
      (hvacant visit List.mem_cons_self at' hat) hυ
    refine ⟨hreg', hnode'.trans hnode, hnodup.2, fun v hv at'' hat' => ?_⟩
    apply hother at'' _ (hvacant v (List.mem_cons_of_mem _ hv) at'' hat')
    rintro rfl
    exact hnodup.1 (List.mem_map.mpr ⟨v, hv, hat'.trans hat.symm⟩)) hs ⟨h, rfl, hmay.1, hmay.2⟩
  exact hloop.1

theorem queryInvoke_registered {link : RemoteDSLink} {visits : List (NodeId × ListenerKind)} (h : σ.Registered)
    (hL : σ.link.get L = some link) (hfree : σ.reqTable (L, rid) = none) (hmay : (visits.map σ.slot).Nodup)
    (hs : σ.queryInvoke L rid visits = some σ') : σ'.Registered := by
  have hreg := openInvoke_registered (c := .query ⟨fun _ => .empty⟩) h hL (fun _ _ hx => nomatch hx) (by
    rintro data kind path hx
    cases hx
    rfl) hfree
  set τ := ({ σ with stream := σ.stream.alloc (.invoke ⟨L, rid, .query ⟨fun _ => .empty⟩⟩) } : Registry).setRequester L rid
    (some σ.stream.next) with hτ
  refine addListeners_registered hreg ⟨hmay, fun visit _ at' _ id hid => ?_⟩ hs
  have hself : τ.invokeStream σ.stream.next = some ⟨L, rid, .query ⟨fun _ => .empty⟩⟩ :=
    invokeStream_eq_some.mpr (Heap.get_alloc_next ..)
  simp [queryListener, hself] at hid

/-- The stream of a listener may listen at these nodes. -/
def MayAttach (σ : Registry) (id : ListenerId) (visits : List (NodeId × ListenerKind)) : Prop :=
  ∀ listener ∈ σ.listener.get id, σ.MayListen listener.stream visits

theorem queryChildAdded_registered {id : ListenerId} {visits : List (NodeId × ListenerKind)} (h : σ.Registered)
    (hmay : σ.MayAttach id visits) (hs : σ.queryChildAdded id visits = some σ') : σ'.Registered := by
  simp only [queryChildAdded, Option.bind_eq_bind, Option.bind_eq_some_iff] at hs
  obtain ⟨listener, hid, hs⟩ := hs
  split at hs
  · exact addListeners_registered h (hmay listener hid) hs
  · cases hs

/-! ## Invokes that are passed on -/

theorem modLink_comm {f g : RemoteDSLink → RemoteDSLink} (hfg : ∀ link, f (g link) = g (f link)) (l : LinkId) :
    (σ.modLink L f).modLink l g = (σ.modLink l g).modLink L f := by
  unfold modLink
  rw [Heap.modify_comm hfg]

/-- The stream of an invoke that is passed on as request `respRid`, before a look at the requester table. -/
def openRemote (σ : Registry) (L : LinkId) (d : DownId) (rid : Nat) (l : LinkId) (respRid : Nat) : Registry :=
  ({ σ.modDnode d (fun node => { node with rid := respRid }) with
    stream := σ.stream.alloc (.invoke ⟨L, rid, .remote l respRid⟩) } : Registry).setResponder l respRid
      (some σ.stream.next)

/-- Taking the old entry out first makes no difference. -/
theorem takeRequester_openRemote {d : DownId} {l : LinkId} {respRid : Nat} {old : Option (Option StreamId)}
    (hs : (σ.openRemote L d rid l respRid).takeRequester L rid = some (τ, old)) :
    ∃ υ, σ.takeRequester L rid = some (υ, old) ∧ τ = υ.openRemote L d rid l respRid := by
  simp only [takeRequester, Option.bind_eq_bind, Option.bind_eq_some_iff] at hs
  obtain ⟨link, hL, hs⟩ := hs
  have hL : (σ.link.modify l _).get L = some link := hL
  have hsame : ∃ link', σ.link.get L = some link' ∧ link.requesterLocked = link'.requesterLocked ∧
      link.requesterStreams = link'.requesterStreams := by
    rw [Heap.get_modify] at hL
    split at hL
    · rename_i hl
      obtain ⟨link', hL', rfl⟩ := Option.map_eq_some_iff.mp hL
      exact ⟨link', hl ▸ hL', rfl, rfl⟩
    · exact ⟨link, hL, rfl, rfl⟩
  obtain ⟨link', hL', hlocked, hstreams⟩ := hsame
  simp only [takeRequester, hL', Option.bind_eq_bind, Option.bind_some]
  rw [hlocked, hstreams] at hs
  split at hs
  · rename_i hlock
    cases hs
    exact ⟨σ, by rw [if_pos hlock], rfl⟩
  · rename_i hlock
    cases hs
    refine ⟨_, by rw [if_neg hlock], ?_⟩
    unfold openRemote setResponder
    rw [modLink_comm (fun _ => by rfl)]
    rfl

theorem takeRequester_stream {old : Option (Option StreamId)} (hs : σ.takeRequester L rid = some (τ, old)) :
    τ.stream.next = σ.stream.next := by
  simp only [takeRequester, Option.bind_eq_bind, Option.bind_eq_some_iff] at hs
  obtain ⟨link, -, hs⟩ := hs
  split at hs
  · cases hs
    rfl
  · cases hs
    rfl

theorem openRemote_link {link : RemoteDSLink} (hL : σ.link.get L = some link) (d : DownId) (r : Nat) (l : LinkId)
    (respRid : Nat) : ∃ link', (σ.openRemote L d r l respRid).link.get L = some link' := by
  have hagree : Heap.Rel RemoteDSLink.Agree σ.link (σ.openRemote L d r l respRid).link :=
    modLink_agree (fun _ => ⟨rfl, rfl⟩)
  obtain ⟨link', hL', -⟩ := hagree.get hL
  exact ⟨link', hL'⟩

/-- The rid is taken, the stream is filed with its responder and not yet with its requester. -/
theorem openRemote_book {d : DownId} {l : LinkId} {respRid : Nat} {link : RemoteDSLink}
    (h : σ.Book X nowhere (fun _ => False)) (hu : σ.UnlockedBut (fun _ => False)) (hl : σ.link.get l = some link)
    (hnone : σ.reqTable (L, rid) = none) (hresp : σ.respTable (l, respRid) = none) :
    (σ.openRemote L d rid l respRid).Book (fun t k => X t k ∨ t = σ.stream.next ∧ k = (L, rid)) nowhere (fun _ => False) ∧
      (σ.openRemote L d rid l respRid).UnlockedBut (fun _ => False) ∧
      (σ.openRemote L d rid l respRid).reqTable = σ.reqTable ∧
      (σ.openRemote L d rid l respRid).stream.get σ.stream.next = some (.invoke ⟨L, rid, .remote l respRid⟩) := by
  set τ : Registry := { σ.modDnode d (fun node => { node with rid := respRid }) with
    stream := σ.stream.alloc (.invoke ⟨L, rid, .remote l respRid⟩) } with hτ
  have hself : τ.stream.get σ.stream.next = some (.invoke ⟨L, rid, .remote l respRid⟩) := Heap.get_alloc_next ..
  have hnew : ∀ t k, τ.respNames t k → if t = σ.stream.next then k = (l, respRid) else
      (σ.modDnode d (fun node => { node with rid := respRid })).respNames t k := by
    intro t k hn
    have hn : if t = σ.stream.next then
          (σ.modDnode d (fun node => { node with rid := respRid })).responders (.invoke ⟨L, rid, .remote l respRid⟩) k
        else (σ.modDnode d (fun node => { node with rid := respRid })).respNames t k := alloc_names.mp hn
    split
    · rename_i ht
      rw [if_pos ht] at hn
      cases hn
      rfl
    · rename_i ht
      rwa [if_neg ht] at hn
  have hbτ : τ.Book (fun t k => X t k ∨ t = σ.stream.next ∧ k = (L, rid)) nowhere (fun t => t = σ.stream.next) := by
    refine alloc_book (setRid_book h) (fun _ _ hx => .inl hx) (fun _ hf => hf.elim) rfl ?_ ?_ (fun x hx => nomatch hx) ?_
    · rintro k hk
      have hk : (L, rid) = k := hk
      subst hk
      exact ⟨hnone, .inr ⟨rfl, rfl⟩⟩
    · rintro k hk
      cases hk
      exact hresp
    · rintro x data kind path hx hdata
      cases hx
      cases hdata
  have hlτ : τ.link.get l = some link := hl
  have hb : (σ.openRemote L d rid l respRid).Book (fun t k => X t k ∨ t = σ.stream.next ∧ k = (L, rid)) nowhere
      (fun t => t = σ.stream.next) := by
    refine setResponder_book hbτ hlτ (hbτ.responder.insert (fun _ _ _ hn => hn) (fun t ht => ?_) (fun _ _ _ hx _ => hx))
      (fun _ ht => ht) ?_
    · by_contra hts
      have hn := hnew t _ ht
      rw [if_neg hts] at hn
      have hfiled := (setRid_book h).responder.filed hn (fun hf => hf)
      cases hresp.symm.trans hfiled
    · rintro t ht
      cases ht
      refine ⟨Heap.lt_next_of_get hself, fun x hx => ?_⟩
      cases hself.symm.trans hx
      rfl
  refine ⟨hb.settle (fun t k ht hn => ?_) (fun t k ht hn => ?_), ?_, reqTable_same (fun _ => rfl), hself⟩
  · have ht : t = σ.stream.next := ht
    subst ht
    have hn : τ.respNames σ.stream.next k := by
      unfold openRemote setResponder at hn
      rwa [respNames_modLink (fun _ => by rfl)] at hn
    have hk := hnew _ k hn
    rw [if_pos rfl] at hk
    have htable : (σ.openRemote L d rid l respRid).respTable =
        Function.update τ.respTable (l, respRid) (some σ.stream.next) := respTable_set hlτ
    rw [htable, hk, Function.update_self]
  · have ht : t = σ.stream.next := ht
    obtain ⟨x, hx, -⟩ := hn
    cases hself.symm.trans (ht ▸ hx)
  · have huτ : τ.UnlockedBut (fun _ => False) := hu
    exact huτ.modLink (fun _ => rfl) (fun _ => rfl)

/-- The stream that had the rid before is closed and freed, whoever else uses it. -/
theorem closeOld_book {old : StreamId} (h : σ.Book (But X old (L, rid)) nowhere (fun _ => False))
    (hu : σ.UnlockedBut (fun _ => False)) (hself : σ.reqNames old (L, rid)) (hnone : σ.reqTable (L, rid) = none)
    (hs : σ.closeOld L (some (some old)) = some σ') :
    σ'.Book (fun t k => t ≠ old ∧ X t k) nowhere (fun _ => False) ∧ Closes old σ σ' := by
  simp only [closeOld, Option.bind_eq_bind, Option.bind_some, Option.bind_eq_some_iff] at hs
  obtain ⟨τ, hτ, hs⟩ := hs
  obtain ⟨hc, hun, hcases⟩ := reqCloseCb_book h hself (fun hf => hf) (.inr (by simp [hnone])) hτ
  have huτ := hc.unlocked hu
  have hb : τ.Book (fun t k => X t k ∨ t = old) nowhere (fun t => False ∨ t = old) ∧
      ∀ t k, t ≠ old → τ.reqNames old k → τ.reqNames t k → X t k := by
    rcases hcases with ⟨st, -, -, hb⟩ | ⟨st, -, -, hb⟩
    · exact ⟨hb.mono (fun _ _ _ hx => .inl hx) (fun _ _ he => he) (fun t ht => ht.imp id And.left),
        fun t k hts hk ht => hb.requester.only hk ht hts⟩
    · exact ⟨hb.mono (fun _ _ _ hx => hx.imp id And.left) (fun _ _ he => he) (fun t ht => ht.elim),
        fun t k hts hk ht => (hb.requester.only hk ht hts).resolve_right (fun hx => hts hx.1)⟩
  obtain ⟨hb', hc', -⟩ := brokerStreamFree_book hb.1 hb.2
    (fun k _ => .inr (fun link hl => (huτ k.1 link hl (fun hf => hf)).1)) hun hs
  exact ⟨hb'.mono (fun _ _ _ hx => hx) (fun _ _ he => he) (fun _ ht => ht.2), hc.trans hc'⟩

theorem brokerMsgHandleInvoke_registered {d : DownId} (h : σ.Registered) (hmay : σ.MayPassOn d)
    (hs : σ.brokerMsgHandleInvoke L d rid = some σ') : σ'.Registered := by
  simp only [brokerMsgHandleInvoke, Option.bind_eq_bind, Option.bind_eq_some_iff] at hs
  obtain ⟨node, hd, hs⟩ := hs
  split at hs
  · cases hs
    exact h.setRid
  · rename_i l hl
    simp only [Option.bind_eq_some_iff, Option.some.injEq] at hs
    obtain ⟨link, hlink, ⟨τ, old⟩, hτ, ρ, hρ, rfl⟩ := hs
    have hlink : σ.link.get l = some link := hlink
    obtain ⟨υ, hυ, rfl⟩ := takeRequester_openRemote (d := d) hτ
    have hresp := hmay node hd l hl
    have hrespυ : ∀ {t}, Closes t σ υ → υ.respTable (l, Broker.incrRid node.rid) = none := by
      intro t hc
      cases hk : υ.respTable (l, Broker.incrRid node.rid) with
      | none => rfl
      | some u => cases hresp.symm.trans (hc.respTable _ hk)
    -- the requester is live, since its table was looked up
    obtain ⟨linkL, hL, -, -⟩ := takeRequester_spec h.unlocked hυ
    rcases old with _ | _ | old
    · cases hρ
      obtain ⟨hreg, hc, hnone⟩ := takeRequester_registered h hυ
      obtain ⟨link', hlink', -⟩ := hc.link.get hlink
      obtain ⟨hb, hu, hreq, hst⟩ := openRemote_book (d := d) hreg.book hreg.unlocked hlink' hnone (hrespυ hc)
      obtain ⟨linkL', hL', -⟩ := hc.link.get hL
      obtain ⟨linkL'', hL''⟩ := openRemote_link hL' d rid l (Broker.incrRid node.rid)
      have hnext : σ.stream.next = υ.stream.next := (takeRequester_stream hυ).symm
      show ((υ.openRemote L d rid l (Broker.incrRid node.rid)).setRequester L rid (some σ.stream.next)).Registered
      rw [hnext]
      refine ⟨fileInvoke_book (hb.mono (fun _ _ _ hx => hx.resolve_left (fun hf => hf)) (fun _ _ he => he)
        (fun _ ho => ho)) hL'' hst rfl (hreq ▸ hnone), hu.modLink (fun _ => rfl) (fun _ => rfl)⟩
    · cases hρ
    · obtain ⟨hb, hc, hself, hnone⟩ := takeRequester_book h hυ
      have huυ := hc.unlocked h.unlocked
      obtain ⟨link', hlink', -⟩ := hc.link.get hlink
      obtain ⟨hb, hu, hreq, hst⟩ := openRemote_book (d := d) hb huυ hlink' hnone (hrespυ hc)
      have hself' : (υ.openRemote L d rid l (Broker.incrRid node.rid)).reqNames old (L, rid) := by
        obtain ⟨x, hx, hk⟩ := hself
        exact ⟨x, Heap.get_alloc_of_get hx, hk⟩
      have hold : υ.stream.next ≠ old := by
        obtain ⟨x, hx, -⟩ := hself
        exact (Heap.ne_next_of_get hx).symm
      obtain ⟨hb', hc'⟩ := closeOld_book (hb.mono (Y := But (fun t k => t = υ.stream.next ∧ k = (L, rid)) old (L, rid))
        (fun t k _ hx => by
          rcases hx with (hf | hx) | hx
          · exact hf.elim
          · exact .inr hx
          · exact .inl hx) (fun _ _ he => he) (fun _ ho => ho)) hu hself' (hreq ▸ hnone) hρ
      obtain ⟨linkL', hL', -⟩ := hc.link.get hL
      obtain ⟨linkL'', hL''⟩ := openRemote_link hL' d rid l (Broker.incrRid node.rid)
      obtain ⟨linkρ, hLρ, -⟩ := hc'.link.get hL''
      have hnext : σ.stream.next = υ.stream.next := (takeRequester_stream hυ).symm
      show (ρ.setRequester L rid (some σ.stream.next)).Registered
      rw [hnext]
      refine ⟨fileInvoke_book (hb'.mono (fun _ _ _ hx => hx.2) (fun _ _ he => he) (fun _ ho => ho)) hLρ
        ((hc'.stream _ hold).trans hst) rfl (hc'.reqTable _ (hreq ▸ hnone)), ?_⟩
      exact (hc'.unlocked hu).modLink (fun _ => rfl) (fun _ => rfl)

end Registry

end DSLink
