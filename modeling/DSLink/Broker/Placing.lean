import DSLink.Broker.Seats

/-!
# `Broker.Placing` — every handler keeps the places in order

The calls of `Broker.Calls` keep `SeatsOk` on their own, but for the four that put a SubRequester somewhere. Those
are only right for one that is nowhere, so the functions that use them are read as a whole.

## Contents
- `SeatsOk.call`: the calls that need no care.
- `Seating`: what an attaching function does to the places, and the loops over pending lists.
- `reach_seats`: the places of every reachable state.
-/

namespace DSLink

variable {J : Type} {cfg : Config} {σ σ' : Broker J}

/-- The calls that keep the places in order whatever they are called with. -/
def Call.keepsSeats : Call J → Prop
  | .pendLocal .. | .pendRemote .. | .attach .. | .unlist .. => False
  | _ => True

theorem Call.updates.keepsSeats {c : Call J} (h : c.updates) : c.keepsSeats := by
  cases c <;> simp [Call.updates] at h <;> trivial

theorem Call.raises.keepsSeats {c : Call J} (h : c.raises) : c.keepsSeats := by
  cases c <;> trivial

theorem Call.removes.keepsSeats {c : Call J} (h : c.removes) : c.keepsSeats := by
  cases c <;> simp [Call.removes] at h <;> trivial

namespace Broker

theorem SeatsOk.congr (h : σ.SeatsOk) (hs : σ'.seats = σ.seats) : σ'.SeatsOk := by
  rw [SeatsOk, hs]
  exact h

/-- What touches no place and no stream of a link. -/
theorem SeatsOk.frame {ps : List Part} (h : σ.SeatsOk) (hf : Frame ps σ σ')
    (hps : ∀ p ∈ [Part.subs, .place, .streams, .pending, .resp], p ∉ ps) : σ'.SeatsOk := by
  simp only [List.mem_cons, List.not_mem_nil, or_false, forall_eq_or_imp, forall_eq] at hps
  obtain ⟨hsubs, hplace, hstreams, hpending, hresp⟩ := hps
  exact h.congr (hf.seats hsubs hplace hstreams hpending (hf.seats_resp hresp))

theorem newSub_seats_ok {d : DownId} {path : CString} {sid qos : Nat} (h : σ.SeatsOk)
    (hs : σ.newSub d path sid qos = some σ') : σ'.SeatsOk ∧ σ'.Unplaced σ.sub.next ∧
      ∀ req, σ'.sub.get σ.sub.next = some req → req.path = path := by
  simp only [newSub, Option.bind_eq_bind, Option.bind_eq_some_iff] at hs
  obtain ⟨τ, hτ, hs⟩ := hs
  obtain rfl := Option.some.inj hs
  obtain ⟨m, rfl⟩ := serializeIf_eq hτ
  have hdead : σ.seats.sub σ.sub.next = none := by simp [seats]
  have hunnamed := h.unnamed_dead hdead
  have hseats : ({ σ with sub := σ.sub.alloc (brokerCreateSubRequester d path sid qos none) } : Broker J).seats =
      σ.seats.setSub σ.sub.next (some (brokerCreateSubRequester (J := J) d path sid qos none).seat) := by
    ext1
    · funext t
      show ((σ.sub.alloc _).get t).map _ = Function.update σ.seats.sub _ _ t
      rw [Heap.get_alloc, Function.update_apply]
      split <;> rfl
    · rfl
    · rfl
    · rfl
  refine ⟨?_, ⟨_, Heap.get_alloc_next _ _, rfl, hunnamed.2⟩, ?_⟩
  · apply SeatsOk.congr (σ := { σ with sub := σ.sub.alloc (brokerCreateSubRequester d path sid qos none) })
    · rw [SeatsOk, hseats]
      exact h.setSub_unnamed hunnamed _
    · exact seats_modDnode_same (fun _ _ => rfl)
  · intro req hreq
    have hreq : (σ.sub.alloc _).get σ.sub.next = some req := hreq
    rw [Heap.get_alloc_next] at hreq
    obtain rfl := Option.some.inj hreq
    rfl

theorem freeDownstreamNode_seats_ok {d : DownId} (h : σ.SeatsOk) (hs : σ.freeDownstreamNode d = some σ') :
    σ'.SeatsOk := by
  simp only [freeDownstreamNode, Option.bind_eq_bind, Option.bind_eq_some_iff] at hs
  obtain ⟨node, hd, hs⟩ := hs
  split at hs
  · cases hs
  · simp only [Option.bind_eq_some_iff] at hs
    obtain ⟨τ, hτ, hs⟩ := hs
    obtain rfl := Option.some.inj hs
    have hok := h.frame (Frame.leaveParent hτ) (by decide)
    have hseats : ({ τ with dnode := τ.dnode.free d } : Broker J).seats = τ.seats.setResp d none := by
      ext1
      · rfl
      · rfl
      · funext e
        show ((τ.dnode.free d).get e).map _ = Function.update τ.seats.resp _ _ e
        rw [Heap.get_free, Function.update_apply]
        split <;> rfl
      · rfl
    rw [SeatsOk, hseats]
    apply hok.setResp
    rintro m' p st ⟨⟩

theorem brokerInitDownstreamNode_seats_ok {parent : NodeId} {name : CString} {d : DownId} (h : σ.SeatsOk)
    (hs : σ.brokerInitDownstreamNode parent name = some (σ', d)) : σ'.SeatsOk := by
  simp only [brokerInitDownstreamNode, Option.bind_eq_bind, Option.bind_eq_some_iff] at hs
  obtain ⟨node, -, hs⟩ := hs
  cases hs
  set child : DownstreamNode J := { path := node.path ++ slash :: name, name := name, parent := some parent, link := none, rid := 0, sid := 0, respSubStreams := .empty, respSubSids := .empty, reqSubPaths := .empty, reqSubSids := .empty, pendingAcks := none }
  apply SeatsOk.congr (σ := { σ with dnode := σ.dnode.alloc child })
  · have hseats : ({ σ with dnode := σ.dnode.alloc child } : Broker J).seats =
        σ.seats.setResp σ.dnode.next (some child.respSubStreams.get) := by
      ext1
      · rfl
      · rfl
      · funext e
        show ((σ.dnode.alloc child).get e).map _ = Function.update σ.seats.resp _ _ e
        rw [Heap.get_alloc, Function.update_apply]
        split <;> rfl
      · rfl
    rw [SeatsOk, hseats]
    apply h.setResp
    rintro m' p st ⟨⟩ hp
    cases hp
  · rfl

theorem brokerCloseLink_seats_ok {d : DownId} (h : σ.SeatsOk) (hs : σ.brokerCloseLink d = some σ') :
    σ'.SeatsOk := by
  simp only [brokerCloseLink, brokerRemoteDslinkFree, Option.bind_eq_bind, Option.bind_eq_some_iff] at hs
  obtain ⟨ω, ⟨node, -, ⟨τ, subs⟩, hτ, υ, hυ, node', -, χ, hχ, hω⟩, hs⟩ := hs
  obtain rfl := Option.some.inj hω
  obtain rfl := Option.some.inj hs
  have hok0 : (σ.modDnode d (fun node => { node with pendingAcks := node.pendingAcks.map Vec.free })).SeatsOk :=
    h.congr (seats_modDnode_same (fun _ _ => rfl))
  have hokτ := hok0.frame (Frame.collectNonQos hτ) (by decide)
  have hokυ : υ.SeatsOk := by
    refine foldlM_invariant SeatsOk ?_ hυ hokτ
    intro σ s _ σ' hok hs
    exact brokerFreeSubRequester_seats_ok hok hs
  have hokχ := hokυ.frame (Frame.resetSids hχ) (by decide)
  have hsids : (χ.modDnode d (fun node => { node with reqSubSids := .empty })).SeatsOk :=
    hokχ.congr (seats_modDnode_same (fun _ _ => rfl))
  exact hsids.congr (seats_modDnode_same (fun _ _ => rfl))

theorem SeatsOk.call {c : Call J} (h : σ.SeatsOk) (hc : c.keepsSeats) (hs : c.run cfg σ = some σ') : σ'.SeatsOk := by
  cases c with
  | pendLocal | pendRemote | attach | unlist => exact hc.elim
  | dropLocal path =>
    cases hs
    rw [SeatsOk, dropLocal_seats]
    exact h.thin (List.nil_sublist _)
  | dropRemote path =>
    cases hs
    rw [SeatsOk, dropRemote_seats]
    exact h.thin (List.nil_sublist _)
  | newLocalStream n => cases hs; exact initLocalStream_seats_ok h n
  | newRemoteStream d path =>
    obtain ⟨node, -, rfl⟩ := Option.map_eq_some_iff.mp hs
    exact initRemoteStream_seats_ok h d node path
  | freeStream st => exact brokerStreamFree_ok h hs
  | newSub d path sid qos => exact (newSub_seats_ok h hs).1
  | freeSub s => exact brokerFreeSubRequester_seats_ok h hs
  | dropDnode d => exact freeDownstreamNode_seats_ok h hs
  | newDnode parent name =>
    obtain ⟨⟨τ, d⟩, hτ, rfl⟩ := Option.map_eq_some_iff.mp hs
    exact brokerInitDownstreamNode_seats_ok h hτ
  | closeLink d => exact brokerCloseLink_seats_ok h hs
  | sendSubscribe d path sid qos => exact h.congr (sendSubscribeRequest_seats hs)
  | streamQos st =>
    have hs : σ.brokerUpdateStreamQos (some st) = some σ' := hs
    exact h.congr (brokerUpdateStreamQos_seats hs)
  | subQos s qos => exact h.congr (brokerUpdateSubQos_seats hs)
  | _ => exact h.frame (Call.frame hs) (by simp [Call.parts, updateParts, sendParts, nodeParts])

theorem SeatsOk.calls {A : Call J → Prop} (h : σ.SeatsOk) (hs : Calls cfg A σ σ') (hA : ∀ c, A c → c.keepsSeats) :
    σ'.SeatsOk :=
  Calls.invariant SeatsOk hs (fun _ c _ hok hc hrun => hok.call (hA c hc) hrun) h

/-! ## Placing a SubRequester -/

/-- `s` got its place, and nobody else was moved. -/
structure Seating (σ σ' : Broker J) (s : SubId) : Prop where
  ok : σ'.SeatsOk
  waiting : σ'.pendingList = σ.pendingList
  others : ∀ t, t ≠ s → σ'.seats.sub t = σ.seats.sub t

theorem Unplaced.seating {s t : SubId} (h : σ.Unplaced t) (hs : σ.Seating σ' s) (hne : t ≠ s) : σ'.Unplaced t := by
  obtain ⟨req, hreq, hstream, hw⟩ := h
  have hsub := (hs.others t hne).trans (seats_sub hreq)
  obtain ⟨req', hreq', hseat⟩ := seats_sub_eq_some.mp hsub
  refine ⟨req', hreq', (congrArg Seat.stream hseat).trans hstream, ?_⟩
  rw [hs.waiting]
  exact hw

/-- The second half of both attaching functions. -/
theorem Seating.of_attach {s : SubId} {req : SubRequester J} {st : StreamId} {stream : BrokerSubStream J}
    {τ : Broker J} (hτ : τ.SeatsOk) (hs : σ.Unplaced s) (hreq : σ.sub.get s = some req)
    (hsub : τ.seats.sub = σ.seats.sub) (hwaiting : τ.pendingList = σ.pendingList)
    (hst : τ.stream.get st = some stream) (hσ' : σ'.seats = (τ.attach s st req.reqNode).seats) :
    σ.Seating σ' s := by
  obtain ⟨req', hreq', hstream, hw⟩ := hs
  cases hreq.symm.trans hreq'
  have hk : τ.seats.sub s = some req.seat := by rw [hsub, seats_sub hreq]
  obtain ⟨reqτ, hreqτ, hseat⟩ := seats_sub_eq_some.mp hk
  have hnode : reqτ.reqNode = req.reqNode := congrArg Seat.reqNode hseat
  have hattach : (τ.attach s st req.reqNode).SeatsOk := by
    rw [← hnode]
    apply attach_ok hτ hreqτ _ _ hst id
    · exact (congrArg Seat.stream hseat).trans hstream
    · rw [hwaiting]
      exact hw
  refine ⟨hattach.congr hσ', ?_, ?_⟩
  · have hw' : σ'.seats.waiting = τ.seats.waiting := by rw [hσ']; rfl
    exact hw'.trans hwaiting
  · intro t hne
    rw [hσ', ← hsub]
    show ((τ.sub.modify s _).get t).map _ = _
    rw [Heap.get_modify_ne hne]
    rfl

theorem sendLastValue_stream {s : SubId} {st : StreamId} (h : sendLastValue cfg σ s st = some σ') :
    ∃ stream, σ.stream.get st = some stream := by
  simp only [sendLastValue, Option.bind_eq_bind, Option.bind_eq_some_iff] at h
  obtain ⟨stream, hst, -⟩ := h
  exact ⟨stream, hst⟩

theorem attach_stream_rev {s : SubId} {st : StreamId} {d : DownId} {stream : BrokerSubStream J}
    (h : (σ.attach s st d).stream.get st = some stream) : ∃ stream, σ.stream.get st = some stream := by
  have h : (σ.stream.modify st _).get st = some stream := h
  rw [Heap.get_modify_self] at h
  obtain ⟨stream', hst, -⟩ := Option.map_eq_some_iff.mp h
  exact ⟨stream', hst⟩

theorem brokerHandleLocalSubscribe_seating {n : NodeId} {s : SubId} {now : J} (h : σ.SeatsOk) (hs : σ.Unplaced s)
    (hrun : σ.brokerHandleLocalSubscribe cfg n s now = some σ') : σ.Seating σ' s := by
  simp only [brokerHandleLocalSubscribe, Option.bind_eq_bind, Option.bind_eq_some_iff] at hrun
  obtain ⟨node, -, req, hreq, ⟨τ, st⟩, hτ, hrun⟩ := hrun
  have hf := Frame.localStream hτ
  have hok : τ.SeatsOk := by
    unfold localStream at hτ
    split at hτ
    · cases hτ
      exact h
    · cases hτ
      exact initLocalStream_seats_ok h n
    · simp only [Option.map_eq_some_iff, Prod.mk.injEq] at hτ
      obtain ⟨υ, hυ, rfl, -⟩ := hτ
      have hinit : (σ.initLocalStream n).1.SeatsOk := initLocalStream_seats_ok h n
      exact hinit.frame (Frame.brokerUpdateSubStreamValue hυ) (by decide)
  obtain ⟨stream, hst⟩ := sendLastValue_stream hrun
  obtain ⟨stream, hst⟩ := attach_stream_rev hst
  apply Seating.of_attach hok hs hreq _ _ hst (sendLastValue_seats hrun)
  · exact hf.seats_sub (by decide) (by decide)
  · exact hf.pendingList (by decide)

theorem brokerSubscribeRemote_seating {d : DownId} {s : SubId} {respPath : CString} (h : σ.SeatsOk)
    (hs : σ.Unplaced s) (hrun : σ.brokerSubscribeRemote cfg d s respPath = some σ') : σ.Seating σ' s := by
  simp only [brokerSubscribeRemote, Option.bind_eq_bind, Option.bind_eq_some_iff] at hrun
  obtain ⟨node, hd, req, hreq, τ, hτ, hrun⟩ := hrun
  have hf := Frame.remoteStream σ d node respPath
  have hok : (σ.remoteStream d node respPath).1.SeatsOk := by
    unfold remoteStream
    split
    · exact h
    · exact initRemoteStream_seats_ok h d node respPath
  have hseats := (sendLastValue_seats hrun).trans (brokerUpdateStreamQos_seats hτ)
  obtain ⟨stream, hst⟩ : ∃ stream, ((σ.remoteStream d node respPath).1.attach s (σ.remoteStream d node respPath).2
      req.reqNode).stream.get (σ.remoteStream d node respPath).2 = some stream := by
    simp only [brokerUpdateStreamQos, Option.bind_eq_bind, Option.bind_eq_some_iff] at hτ
    obtain ⟨stream, hst, -⟩ := hτ
    exact ⟨stream, hst⟩
  obtain ⟨stream, hst⟩ := attach_stream_rev hst
  apply Seating.of_attach hok hs hreq _ _ hst hseats
  · exact hf.seats_sub (by decide) (by decide)
  · exact hf.pendingList (by decide)

theorem placeSub_seats_ok {s : SubId} {path : CString} {respNode : Option (NodeRef × CString)} {now : J}
    (h : σ.SeatsOk) (hs : σ.Unplaced s) (hpath : ∀ req, σ.sub.get s = some req → req.path = path)
    (hrun : σ.placeSub cfg s path respNode now = some σ') : σ'.SeatsOk := by
  obtain ⟨req, hreq, hstream, hw⟩ := id hs
  obtain rfl := hpath req hreq
  unfold placeSub at hrun
  split at hrun
  · split at hrun
    · exact pendRemote_ok h hreq hstream hw hrun
    · cases hrun
      exact pendLocal_ok h hreq hstream hw
  · exact (brokerHandleLocalSubscribe_seating h hs hrun).ok
  · exact (brokerSubscribeRemote_seating h hs hrun).ok

/-- A whole list that was taken out of the table is placed. -/
theorem placeAll_seats_ok {f : Broker J → SubId → Option (Broker J)} {subs : List SubId}
    (hf : ∀ σ s σ', σ.SeatsOk → σ.Unplaced s → f σ s = some σ' → σ.Seating σ' s) (h : σ.SeatsOk)
    (hnodup : subs.Nodup) (hs : ∀ s ∈ subs, σ.Unplaced s) (hrun : subs.foldlM f σ = some σ') :
    σ'.SeatsOk ∧ σ'.pendingList = σ.pendingList := by
  induction subs generalizing σ with
  | nil =>
    cases hrun
    exact ⟨h, rfl⟩
  | cons s subs ih =>
    simp only [List.foldlM_cons, Option.bind_eq_bind, Option.bind_eq_some_iff] at hrun
    obtain ⟨τ, hτ, hrun⟩ := hrun
    obtain ⟨hnot, hnodup⟩ := List.nodup_cons.mp hnodup
    have hseating := hf σ s τ h (hs s List.mem_cons_self) hτ
    have hrest : ∀ t ∈ subs, τ.Unplaced t := by
      intro t ht
      apply (hs t (List.mem_cons_of_mem _ ht)).seating hseating
      rintro rfl
      exact hnot ht
    obtain ⟨hok, hw⟩ := ih hseating.ok hnodup hrest hrun
    exact ⟨hok, hw.trans hseating.waiting⟩

/-- Who waited in a list that was taken out of the table is nowhere. -/
theorem unplaced_of_dropped (key : PendingKey) {s : SubId} (h : σ.SeatsOk) (hs : s ∈ σ.pendingList key)
    (hdrop : σ'.seats = σ.seats.setWaiting key []) : σ'.Unplaced s := by
  obtain ⟨k, hk, hstream, hkey, -⟩ := h.waits key s hs
  have hk' : σ'.seats.sub s = some k := by rw [hdrop]; exact hk
  obtain ⟨req, hreq, rfl⟩ := seats_sub_eq_some.mp hk'
  refine ⟨req, hreq, hstream, ?_⟩
  intro key' hw
  have hw : s ∈ σ'.seats.waiting key' := hw
  rw [hdrop] at hw
  have hw : s ∈ Function.update σ.pendingList key [] key' := hw
  rw [Function.update_apply] at hw
  split at hw
  · cases hw
  · rename_i hne
    obtain ⟨-, hkey'⟩ := h.waits_at hk hw
    rw [hkey] at hkey'
    exact hne (Option.some.inj hkey').symm

/-- A list is taken out of the table, placed as a whole and freed. -/
theorem resolve_seats_ok (key : PendingKey) {f : Broker J → SubId → Option (Broker J)} {subs : List SubId}
    {τ υ : Broker J} (hf : ∀ σ s σ', σ.SeatsOk → σ.Unplaced s → f σ s = some σ' → σ.Seating σ' s) (h : σ.SeatsOk)
    (hlist : σ.pendingList key = subs) (hdrop : τ.seats = σ.seats.setWaiting key [])
    (hrun : subs.foldlM f τ = some υ) : (υ.subsListFree subs).SeatsOk := by
  subst hlist
  have hok : τ.SeatsOk := by
    rw [SeatsOk, hdrop]
    exact h.thin (List.nil_sublist _)
  have hunplaced : ∀ s ∈ σ.pendingList key, τ.Unplaced s :=
    fun s hs => unplaced_of_dropped key h hs hdrop
  obtain ⟨hυ, hw⟩ := placeAll_seats_ok hf hok (h.nodup key) hunplaced hrun
  apply subsListFree_ok hυ _
  intro s hs
  rw [hw]
  obtain ⟨req, -, -, hnot⟩ := hunplaced s hs
  exact hnot

/-! ## The handlers -/

theorem handlePendingSub_seats_ok {n : NodeId} {now : J} (h : σ.SeatsOk)
    (hrun : σ.handlePendingSub cfg n now = some σ') : σ'.SeatsOk := by
  simp only [handlePendingSub, Option.bind_eq_bind, Option.bind_eq_some_iff] at hrun
  obtain ⟨node, -, hrun⟩ := hrun
  split at hrun
  · cases hrun
    exact h
  · rename_i subs hsubs
    simp only [Option.bind_eq_some_iff] at hrun
    obtain ⟨τ, hτ, hrun⟩ := hrun
    obtain rfl := Option.some.inj hrun
    apply resolve_seats_ok (.localPendingSub node.path) _ h _ (dropLocal_seats σ node.path) hτ
    · exact fun _ _ _ hok hs => brokerHandleLocalSubscribe_seating hok hs
    · simp [pendingList, hsubs]

theorem resendSubscriptions_seats {d : DownId} {streams : List StreamId}
    (h : σ.resendSubscriptions d streams = some σ') : σ'.seats = σ.seats := by
  refine foldlM_invariant (fun τ => τ.seats = σ.seats) ?_ h rfl
  intro τ st _ τ' hτ hs
  simp only [Option.bind_eq_bind, Option.bind_eq_some_iff] at hs
  obtain ⟨stream, -, hs⟩ := hs
  exact (sendSubscribeRequest_seats hs).trans hτ

theorem brokerDslinkConnect_seats_ok {d : DownId} (h : σ.SeatsOk) (hrun : σ.brokerDslinkConnect cfg d = some σ') :
    σ'.SeatsOk := by
  simp only [brokerDslinkConnect, Option.bind_eq_bind, Option.bind_eq_some_iff] at hrun
  obtain ⟨node, hd, τ, hτ, hrun⟩ := hrun
  have hopen : (σ.modDnode d (fun node' => { node' with link := some ⟨σ.linkPath node, 0, []⟩ })).seats = σ.seats :=
    seats_modDnode_same (fun _ _ => rfl)
  have hok := h.congr ((resendSubscriptions_seats hτ).trans hopen)
  split at hrun
  · cases hrun
    exact hok
  · rename_i subs hsubs
    simp only [Option.bind_eq_some_iff] at hrun
    obtain ⟨len, -, υ, hυ, hrun⟩ := hrun
    obtain rfl := Option.some.inj hrun
    apply resolve_seats_ok (.remotePendingSub node.path) _ hok _ (dropRemote_seats τ node.path) hυ
    · intro σ s σ' hok hs hrun
      simp only [Option.bind_eq_bind, Option.bind_eq_some_iff] at hrun
      obtain ⟨req, -, hrun⟩ := hrun
      exact brokerSubscribeRemote_seating hok hs hrun
    · simp [pendingList, hsubs]

theorem resubscribe_seats_ok {d : DownId} {s : SubId} {sid qos : Nat} (h : σ.SeatsOk)
    (hrun : σ.resubscribe cfg d s sid qos = some σ') : σ'.SeatsOk := by
  simp only [resubscribe, Option.bind_eq_bind, Option.bind_eq_some_iff] at hrun
  obtain ⟨τ, hτ, υ, hυ, hrun⟩ := hrun
  have hok : υ.SeatsOk := by
    apply SeatsOk.congr _ (brokerUpdateSubQos_seats hυ)
    exact h.frame (Frame.rekey hτ) (by decide)
  simp only [sendWaiting, Option.bind_eq_bind, Option.bind_eq_some_iff] at hrun
  obtain ⟨req, -, hrun⟩ := hrun
  split at hrun
  · exact hok.frame (Frame.brokerUpdateSubReqQos hrun) (by decide)
  · split at hrun
    · exact hok.frame (Frame.sendQueuedMessages hrun) (by decide)
    · split at hrun
      · cases hrun
        exact hok
      · exact hok.congr (sendLastValue_seats hrun)

theorem subscribeNew_seats_ok {d : DownId} {path : CString} {sid qos : Nat} {now : J} (h : σ.SeatsOk)
    (hrun : σ.subscribeNew cfg d path sid qos now = some σ') : σ'.SeatsOk := by
  obtain ⟨τ, respNode, hτ, -, hrun⟩ := subscribeNew_calls hrun
  obtain ⟨hok, hunplaced, hpath⟩ := newSub_seats_ok h hτ
  exact placeSub_seats_ok hok hunplaced hpath hrun

theorem subscribePath_seats_ok {d : DownId} {path : CString} {sid qos : Nat} {now : J} (h : σ.SeatsOk)
    (hrun : σ.subscribePath cfg d path sid qos now = some σ') : σ'.SeatsOk := by
  simp only [subscribePath, Option.bind_eq_bind, Option.bind_eq_some_iff] at hrun
  obtain ⟨node, -, hrun⟩ := hrun
  split at hrun
  · split at hrun
    · exact h.congr (brokerUpdateSubQos_seats hrun)
    · simp only [Option.bind_eq_some_iff] at hrun
      obtain ⟨τ, hτ, hrun⟩ := hrun
      exact resubscribe_seats_ok (brokerFreeSubRequester_seats_ok h hτ) hrun
  · simp only [Option.bind_eq_some_iff] at hrun
    obtain ⟨τ, hτ, hrun⟩ := hrun
    exact subscribeNew_seats_ok (brokerFreeSubRequester_seats_ok h hτ) hrun
  · exact resubscribe_seats_ok h hrun
  · exact subscribeNew_seats_ok h hrun

theorem SeatsOk.works {N : CString → Prop} (h : σ.SeatsOk) (hs : Works cfg N σ σ') : σ'.SeatsOk :=
  hs.invariant SeatsOk (fun _ _ _ hok hc hrun => hok.call hc.keepsSeats hrun)
    (fun _ _ _ _ hok hrun => handlePendingSub_seats_ok hok hrun) h

theorem SeatsOk.step {e : Event J} (h : σ.SeatsOk) (hs : step cfg σ e = some σ') : σ'.SeatsOk := by
  cases e with
  | connect d =>
    simp only [Broker.step, Option.bind_eq_bind, Option.bind_eq_some_iff] at hs
    obtain ⟨node, -, hs⟩ := hs
    split at hs
    · cases hs
    · exact brokerDslinkConnect_seats_ok h hs
  | subscribe d sub now =>
    obtain ⟨node, -, -, hs⟩ := onLink_eq hs
    unfold handleSubscribe at hs
    split at hs
    · split at hs
      · cases hs
        exact h
      · exact subscribePath_seats_ok h hs
    · cases hs
      exact h
  | nodeValue | invoke | publish | set => exact h.works (step_works hs trivial)
  | initDownstream | initUpstream | closeLink | removeLink | unsubscribe | ack | update | streamUpdate | sendOther
  | addLocal | freeLocal =>
    apply h.calls (step_calls hs)
    intro c hc
    cases c <;> simp [Event.calls, Call.updates, Call.removes] at hc <;> trivial

/-- Places are in order in every reachable state. -/
theorem reach_seats {ok : Broker J → Event J → Prop} (h : Reach (step cfg) ok (fun σ => brokerInit = some σ) σ) :
    σ.SeatsOk := by
  refine Reach.invariant SeatsOk ?_ (fun σ e σ' hok _ hs => hok.step hs) h
  intro σ hσ
  obtain ⟨hsub, hdnode, hstream, hlocal, hremote, -⟩ := brokerInit_empty hσ
  constructor
  · intro st x d s _ hx _
    obtain ⟨stream, hst, -⟩ := seats_stream_eq_some.mp hx
    rw [hstream] at hst
    cases hst
  · intro key s hs
    cases key <;> simp [seats, pendingList, hlocal, hremote] at hs
  · intro key
    cases key <;> simp [seats, pendingList, hlocal, hremote]
  · intro d m p st hm
    simp [seats, hdnode] at hm

end Broker

end DSLink
