import DSLink.Broker.Reconnected

/-!
# `Broker.StreamRegistry` — streams and tables over whole runs

Every handler keeps `Registered` where its request does not take a rid that is in use. `Event.Free` says this of
each event in the state before it. Only the handler of an invoke request looks for an older stream of its rid;
the list requests, a query and the publish action overwrite the entry.

## Contents
- `Event.Free` and `step_registered`.
- `Consistent` and `Forgotten`, what the tables should say, and `stream_registry`.
-/

namespace DSLink

namespace Registry

open CrossIndex

variable {σ σ' : Registry} {s : StreamId} {L : LinkId} {rid : Nat}

/-! ## Events -/

/-- The rids, dsIds and paths that an event takes are free. -/
def Event.Free (σ : Registry) : Event → Prop
  | .connect d _ => σ.MayConnect d
  | .listSelf L n rid => σ.MayJoin L rid (σ.ownTable (.regular n, []))
  | .listDslink L d path rid => σ.MayListDslink L d path rid
  | .invoke _ d _ => σ.MayPassOn d
  | .query L rid visits => σ.reqTable (L, rid) = none ∧ (visits.map σ.slot).Nodup
  | .publish L rid => σ.reqTable (L, rid) = none
  | .childAdded id visits => σ.MayAttach id visits
  | _ => True

theorem onLink_eq_some {f : Option Registry} (hs : σ.onLink L f = some σ') : ∃ link, σ.link.get L = some link ∧ f = some σ' :=
  Option.bind_eq_some_iff.mp hs

theorem empty_registered : empty.Registered := by
  refine ⟨⟨?_, ?_, ?_, ?_, ?_, ?_, ?_, ?_, ?_, ?_, ?_⟩, ?_⟩
  · rintro t k ⟨st, ht, -⟩
    cases ht
  · intro t k hk
    cases hk
  · rintro t k ⟨st, ht, -⟩
    cases ht
  · rintro t k ⟨st, ht, -⟩
    cases ht
  · rintro t ⟨ref, p⟩ hk
    cases ref with
    | regular n =>
      simp [ownTable, empty] at hk
    | downstream d => cases hk
  · intro t k hk
    cases hk
  · intro t st dsId k ht
    cases ht
  · intro d node l hd
    cases hd
  · intro l link hl
    cases hl
  · intro id listener at' hid
    cases hid
  · intro t st data kind path id ht
    cases ht
  · intro l link hl
    cases hl

/-- One event. -/
theorem step_registered {e : Event} (h : σ.Registered) (hfree : e.Free σ) (hs : σ.step e = some σ') : σ'.Registered := by
  cases e with
  | addNode path =>
    cases hs
    exact addNode_registered h
  | addDownstream =>
    cases hs
    exact addDownstream_registered h
  | takeRid d =>
    obtain ⟨node, -, rfl⟩ := Option.map_eq_some_iff.mp hs
    exact h.setRid
  | connect d dsId =>
    simp only [step, Option.bind_eq_bind, Option.bind_eq_some_iff] at hs
    obtain ⟨node, hd, hs⟩ := hs
    split at hs
    · cases hs
    · rename_i hl
      exact brokerDslinkConnect_registered h hd (by simpa using hl) hfree hs
  | closeLink L => exact (brokerCloseLink_registered h hs).1
  | listSelf L n rid =>
    obtain ⟨-, -, hs⟩ := onLink_eq_some hs
    exact brokerListSelf_registered h hfree hs
  | listDslink L d path rid =>
    obtain ⟨-, -, hs⟩ := onLink_eq_some hs
    exact brokerListDslink_registered h hfree hs
  | invoke L d rid =>
    obtain ⟨-, -, hs⟩ := onLink_eq_some hs
    exact brokerMsgHandleInvoke_registered h hfree hs
  | query L rid visits =>
    obtain ⟨link, hL, hs⟩ := onLink_eq_some hs
    exact queryInvoke_registered h hL hfree.1 hfree.2 hs
  | publish L rid =>
    obtain ⟨link, hL, hs⟩ := onLink_eq_some hs
    cases hs
    exact onPublishInvoked_registered h hL hfree
  | close L rid =>
    obtain ⟨-, -, hs⟩ := onLink_eq_some hs
    exact brokerMsgHandleClose_registered h hs
  | response L rid closed =>
    obtain ⟨-, -, hs⟩ := onLink_eq_some hs
    exact brokerHandleResp_registered h hs
  | childAdded id visits => exact queryChildAdded_registered h hfree hs
  | freeNode n => exact freeNode_registered h hs
  | freeDownstream d => exact freeDownstreamNode_registered h hs

theorem reach_registered (h : Reach step (fun σ e => Event.Free σ e) (· = empty) σ) : σ.Registered := by
  apply h.invariant Registered
  · rintro _ rfl
    exact empty_registered
  · intro σ e σ' hi hfree hs
    exact step_registered hi hfree hs

/-! ## What the tables say -/

/-- The tables hold exactly the streams that name them: `L` with rid `r` is a requester of a list stream where the
    requester table of `L` has it under `r`, and an invoke stream is in the tables of both its links. -/
structure Consistent (σ : Registry) : Prop where
  entry : ∀ L link r s, σ.link.get L = some link → link.requesterStreams.get r = some (some s) →
    ∃ st, σ.stream.get s = some st ∧ st.requesters (L, r)
  list : ∀ s st L r, σ.listStream s = some st → ((∃ dsId, st.requesterLinks.get dsId = some (L, r)) ↔
    ∃ link, σ.link.get L = some link ∧ link.requesterStreams.get r = some (some s))
  requester : ∀ s st, σ.invokeStream s = some st →
    ∃ link, σ.link.get st.requester = some link ∧ link.requesterStreams.get st.requesterRid = some (some s)
  responder : ∀ s st L r, σ.invokeStream s = some st → st.call = .remote L r →
    ∃ link, σ.link.get L = some link ∧ link.responderStreams.get r = some (some s)

/-- No stream, linked listener or node refers to `L`. -/
structure Forgotten (σ : Registry) (L : LinkId) : Prop where
  list : ∀ s st dsId r, σ.listStream s = some st → st.requesterLinks.get dsId ≠ some (L, r)
  invoke : ∀ s st, σ.invokeStream s = some st → st.requester ≠ L ∧ ∀ r, st.call ≠ .remote L r
  listener : ∀ id listener, σ.listener.get id = some listener → listener.list ≠ none →
    ∃ st, σ.invokeStream listener.stream = some st ∧ st.requester ≠ L
  node : ∀ d node, σ.dnode.get d = some node → node.link ≠ some L

theorem reqTable_eq_some {k : Key} : σ.reqTable k = some s ↔
    ∃ link, σ.link.get k.1 = some link ∧ link.requesterStreams.get k.2 = some (some s) := by
  simp [reqTable, Option.bind_eq_some_iff, Option.join_eq_some_iff]

theorem respTable_eq_some {k : Key} : σ.respTable k = some s ↔
    ∃ link, σ.link.get k.1 = some link ∧ link.responderStreams.get k.2 = some (some s) := by
  simp [respTable, Option.bind_eq_some_iff, Option.join_eq_some_iff]

theorem Registered.consistent (h : σ.Registered) : σ.Consistent where
  entry L link r s hl hr :=
    (h.book.requested s (L, r) (reqTable_eq_some.mpr ⟨link, hl, hr⟩)).resolve_right (fun hf => hf)
  list s st L r hst := by
    have hst := listStream_eq_some.mp hst
    rw [← reqTable_eq_some (k := (L, r)), ← filed_iff h.book.requester h.book.requested]
    constructor
    · exact fun hk => ⟨_, hst, hk⟩
    · rintro ⟨x, hx, hk⟩
      cases hst.symm.trans hx
      exact hk
  requester s st hst :=
    reqTable_eq_some.mp (h.book.requester.filed ⟨_, invokeStream_eq_some.mp hst, rfl⟩ (fun hf => hf))
  responder s st L r hst hcall :=
    respTable_eq_some.mp (h.book.responder.filed (k := (L, r)) ⟨_, invokeStream_eq_some.mp hst, hcall⟩ (fun hf => hf))

/-- What refers to a link is in one of its tables. -/
theorem Registered.forgotten (h : σ.Registered) (hL : σ.link.get L = none) : σ.Forgotten L where
  list s st dsId r hst hk := by
    obtain ⟨link, hl, -⟩ := (h.consistent.list s st L r hst).mp ⟨dsId, hk⟩
    cases hL.symm.trans hl
  invoke s st hst := by
    constructor
    · rintro rfl
      obtain ⟨link, hl, -⟩ := h.consistent.requester s st hst
      cases hL.symm.trans hl
    · intro r hcall
      obtain ⟨link, hl, -⟩ := h.consistent.responder s st L r hst hcall
      cases hL.symm.trans hl
  listener id listener hid hlist := by
    obtain ⟨at', hat⟩ := Option.ne_none_iff_exists'.mp hlist
    obtain ⟨st, -, -, hst, -⟩ := h.book.listeners id listener at' hid hat
    have hst := invokeStream_eq_some.mpr hst
    refine ⟨st, hst, ?_⟩
    rintro rfl
    obtain ⟨link, hl, -⟩ := h.consistent.requester _ st hst
    cases hL.symm.trans hl
  node d node hd hl := by
    obtain ⟨link, hlink, -⟩ := h.book.nodeLink d node L hd hl
    cases hL.symm.trans hlink

/-- While no request takes a rid that is in use, streams and tables agree in every state, and nothing refers to a
    link that was freed. -/
theorem stream_registry (h : Reach step (fun σ e => Event.Free σ e) (· = empty) σ) :
    σ.Consistent ∧ ∀ L, σ.link.get L = none → σ.Forgotten L :=
  ⟨(reach_registered h).consistent, fun _ hL => (reach_registered h).forgotten hL⟩

/-! ## Runs -/

instance (σ : Registry) (L : LinkId) (rid : Nat) : ∀ s, Decidable (σ.MayJoin L rid s)
  | some _ => inferInstanceAs (Decidable (_ ∧ _))
  | none => inferInstanceAs (Decidable (_ = _))

instance (σ : Registry) (d : DownId) : Decidable (σ.MayPassOn d) :=
  inferInstanceAs (Decidable (∀ _ ∈ _, _))

instance (σ : Registry) (s : StreamId) (at' : CString × ListenerKind) : Decidable (σ.Vacant s at') :=
  inferInstanceAs (Decidable (∀ _ ∈ _, _))

instance (σ : Registry) (s : StreamId) (visits : List (NodeId × ListenerKind)) : Decidable (σ.MayListen s visits) :=
  inferInstanceAs (Decidable (_ ∧ _))

instance (σ : Registry) : ∀ e, Decidable (Event.Free σ e)
  | .connect d _ => inferInstanceAs (Decidable (∀ node ∈ σ.dnode.get d, node.listStreams.size ≤ ridPeriod))
  | .listSelf L n rid => inferInstanceAs (Decidable (σ.MayJoin L rid (σ.ownTable (.regular n, []))))
  | .listDslink L d path rid => inferInstanceAs (Decidable (σ.MayJoin L rid (σ.ownTable (.downstream d, path)) ∧
      (σ.ownTable (.downstream d, path) = none → σ.MayPassOn d)))
  | .invoke _ d _ => inferInstanceAs (Decidable (σ.MayPassOn d))
  | .query _ _ _ => inferInstanceAs (Decidable (_ ∧ _))
  | .publish L rid => inferInstanceAs (Decidable (σ.reqTable (L, rid) = none))
  | .childAdded id visits =>
    inferInstanceAs (Decidable (∀ listener ∈ σ.listener.get id, σ.MayListen listener.stream visits))
  | .addNode _ | .addDownstream | .takeRid _ | .closeLink _ | .close _ _ | .response _ _ _ | .freeNode _
  | .freeDownstream _ => inferInstanceAs (Decidable True)

/-- Two links, `a` and `b`, and the data nodes 0 and 1. -/
def twoLinks : List Event :=
  [.addNode (cstr "/data/n"), .addNode (cstr "/data/m"), .addDownstream, .addDownstream, .connect 0 (some (cstr "a")),
    .connect 1 (some (cstr "b"))]

/-- A shared list stream, a stream that `b` answers, a query, and an invoke that takes over the rid of a list request;
    then `b` goes. -/
theorem stream_registry_disconnect : ∃ σ : Registry, (σ.link.get 0).any (fun link => link.requesterStreams.size = 3) ∧
    σ.link.get 1 = none ∧ σ.Consistent ∧ ∀ L, σ.link.get L = none → σ.Forgotten L := by
  obtain ⟨σ, hreach, hcheck⟩ := Reach.of_guarded step (fun σ e => Event.Free σ e) (some empty)
    (twoLinks ++ [.listSelf 0 0 1, .listSelf 1 0 5, .listDslink 0 1 (cstr "/x") 2, .invoke 0 1 2,
      .query 1 7 [(0, .childAdded), (0, .valueUpdate)], .listDslink 0 1 (cstr "/y") 4, .publish 0 6, .close 0 6,
      .listSelf 0 1 8, .closeLink 1])
    (fun σ => (σ.link.get 0).any (fun link => link.requesterStreams.size = 3) ∧ (σ.link.get 1).isNone) (by decide)
  simp only [Bool.decide_and, Bool.and_eq_true, decide_eq_true_eq, Option.isNone_iff_eq_none] at hcheck
  obtain ⟨hsize, hnone⟩ := hcheck
  have h := stream_registry (hreach.of_init (fun _ hs => (Option.some.inj hs).symm))
  exact ⟨σ, by simpa using hsize, hnone, h.1, h.2⟩

/-- A link lists two nodes under one rid. The first stream keeps the link, which its table does not know any more;
    it still does when the link is freed. -/
theorem stream_registry_overwritten :
    (∃ σ, Reach step (fun _ _ => True) (· = empty) σ ∧ ¬σ.Consistent) ∧
      ∃ σ, Reach step (fun _ _ => True) (· = empty) σ ∧ σ.link.get 0 = none ∧ ¬σ.Forgotten 0 := by
  have hrun : ∀ es, ∀ check : Registry → Bool, (runFrom step empty es).any check = true →
      ∃ σ, Reach step (fun _ _ => True) (· = empty) σ ∧ check σ = true := by
    intro es check h
    obtain ⟨σ, hreach, hcheck⟩ := Reach.of_eval step (some empty) es check h
    exact ⟨σ, hreach.of_init (fun _ hs => (Option.some.inj hs).symm), hcheck⟩
  constructor
  · obtain ⟨σ, hreach, hcheck⟩ := hrun (twoLinks ++ [.listSelf 0 0 1, .listSelf 0 1 1])
      (fun σ => (σ.listStream 0).any (fun st => st.requesterLinks.get (cstr "a") = some (0, 1)) ∧
        (σ.link.get 0).any (fun link => link.requesterStreams.get 1 = some (some 1))) (by decide)
    simp only [Bool.decide_and, Bool.and_eq_true, Option.any_eq_true, decide_eq_true_eq] at hcheck
    obtain ⟨⟨st, hst, hk⟩, link, hl, hr⟩ := hcheck
    refine ⟨σ, hreach, fun h => ?_⟩
    obtain ⟨link', hl', hr'⟩ := (h.list 0 st 0 1 hst).mp ⟨_, hk⟩
    cases hl.symm.trans hl'
    cases hr.symm.trans hr'
  · obtain ⟨σ, hreach, hcheck⟩ := hrun (twoLinks ++ [.listSelf 0 0 1, .listSelf 0 1 1, .closeLink 0])
      (fun σ => (σ.listStream 0).any (fun st => st.requesterLinks.get (cstr "a") = some (0, 1)) ∧
        (σ.link.get 0).isNone) (by decide)
    simp only [Bool.decide_and, Bool.and_eq_true, Option.any_eq_true, decide_eq_true_eq,
      Option.isNone_iff_eq_none] at hcheck
    obtain ⟨⟨st, hst, hk⟩, hnone⟩ := hcheck
    exact ⟨σ, hreach, hnone, fun h => h.list 0 st _ 1 hst hk⟩

end Registry

end DSLink
