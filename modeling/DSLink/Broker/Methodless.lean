import DSLink.Broker.Keeps

/-!
# `Broker.Methodless` — a request without a method

`broker_handle_req` takes a request without a method for an update of the invoke under its rid and reads
`continuous_invoke` of the stream it finds there. Streams of both types share the table, so what is read depends on
the request that stored the stream. A `Session` is the registry with the last request for every rid of every link.

## Contents
- `Slot`, `handleMethodless`: what is read.
- `Entries`: what a stream under a rid is, by the last request for it.
- `Sound`: `Entries`, with the locks and the tables of the nodes; every event keeps it.
- `continuous_invoke_typed`: when a request without a method reads an invoke stream.
-/

namespace DSLink

namespace Registry

/-! ## What is read -/

/-- The callback of a `BrokerInvokeStream`. -/
inductive ContinuousInvoke
  | onPublishContinuousInvoked
  deriving DecidableEq

/-- What a stream has at the place of `continuous_invoke`: a `BrokerListStream` has its `responder_rid` there. -/
inductive Slot
  | continuousInvoke (callback : Option ContinuousInvoke)
  | responderRid (rid : Nat)
  deriving DecidableEq

/-- Only `on_publish_invoked` sets the callback. -/
def InvokeCall.continuousInvoke : InvokeCall → Option ContinuousInvoke
  | .publish => some .onPublishContinuousInvoked
  | _ => none

def BrokerStream.slot : BrokerStream → Slot
  | .invoke st => .continuousInvoke st.call.continuousInvoke
  | .list st => .responderRid st.responderRid

/-- What is not NULL is called. -/
def Slot.calls : Slot → Bool
  | .continuousInvoke callback => callback.isSome
  | .responderRid rid => decide (rid ≠ 0)

/-- `broker_handle_req` without a method: what it reads, if anything. -/
def handleMethodless (σ : Registry) (L : LinkId) (rid : Nat) : Option (Option Slot) := do
  let link ← σ.link.get L
  match link.requesterStreams.get rid with
  | none => some none
  | some data => do
    let stream ← σ.stream.get (← data)
    some (some stream.slot)

/-! ## Sessions -/

/-- What a request stores under its rid: a list stream or an invoke stream. -/
inductive Kind
  | list | invocation
  deriving DecidableEq

/-- The rid an event stores a stream under. An invoke of a node without a link stores nothing. -/
def stored (σ : Registry) : Event → Option (Key × Kind)
  | .listSelf L _ rid => some ((L, rid), .list)
  | .listDslink L _ _ rid => some ((L, rid), .list)
  | .invoke L d rid => if ((σ.dnode.get d).bind DownstreamNode.link).isSome then some ((L, rid), .invocation) else none
  | .query L rid _ => some ((L, rid), .invocation)
  | .publish L rid => some ((L, rid), .invocation)
  | _ => none

/-- What the last requests stored, after `e`. -/
def record (σ : Registry) (last : Key → Option Kind) (e : Event) : Key → Option Kind :=
  match σ.stored e with
  | some (k, kind) => Function.update last k (some kind)
  | none => last

theorem record_stored {σ : Registry} {last : Key → Option Kind} {e : Event} {k : Key} {kind : Kind}
    (h : σ.stored e = some (k, kind)) : σ.record last e = Function.update last k (some kind) := by
  rw [record, h]

theorem record_none {σ : Registry} {last : Key → Option Kind} {e : Event} (h : σ.stored e = none) :
    σ.record last e = last := by
  rw [record, h]

/-- The registry, and what the last request for a rid stored. -/
structure Session where
  reg : Registry
  last : Key → Option Kind

/-- An event of the registry, or a request without a method. -/
inductive Session.Event
  | event (e : Registry.Event)
  | methodless (L : LinkId) (rid : Nat)

namespace Session

/-- One step. A call through a number has no result; the callback of a publish changes no stream. -/
def step (S : Session) : Event → Option Session
  | .event e => (S.reg.step e).map (fun reg => ⟨reg, S.reg.record S.last e⟩)
  | .methodless L rid => do
    match ← S.reg.handleMethodless L rid with
    | some (.responderRid r) => if r = 0 then some S else none
    | _ => some S

/-- The broker before its first node and link. -/
def empty : Session := ⟨Registry.empty, fun _ => none⟩

end Session

/-! ## Entries -/

variable {σ σ' τ : Registry} {X : LinkId → Prop} {last : Key → Option Kind} {L : LinkId} {rid : Nat} {s : StreamId}

/-- `s` is not the address of an invoke stream, now or later. -/
def NoInvoke (σ : Registry) (s : StreamId) : Prop :=
  s < σ.stream.next ∧ ∀ st, σ.stream.get s ≠ some (.invoke st)

theorem Keeps.noInvoke (h : Keeps X σ σ') (hs : σ.NoInvoke s) : σ'.NoInvoke s := by
  refine ⟨Nat.lt_of_lt_of_le hs.1 h.next, fun st' hst' => ?_⟩
  obtain ⟨x, hx, hsame⟩ := h.owner s _ hs.1 hst'
  cases x with
  | invoke st => exact hs.2 st hx
  | list st => cases hsame

/-- What is under a rid is what the last request stored there, but for links in `X`. -/
def Entries (σ : Registry) (X : LinkId → Prop) (last : Key → Option Kind) : Prop :=
  ∀ L rid x, ¬X L → σ.Holds L rid x → ∃ s, x = some s ∧
    (last (L, rid) = some .invocation ∧ σ.Invokes L rid s ∨ last (L, rid) = some .list ∧ σ.NoInvoke s)

theorem Entries.keep (h : σ.Entries X last) (hk : Keeps X σ σ') : σ'.Entries X last := by
  intro L rid x hX hs
  obtain ⟨s, rfl, hkind⟩ := h L rid x hX (hk.holds L rid x hX hs)
  refine ⟨s, rfl, ?_⟩
  rcases hkind with ⟨hlast, hi⟩ | ⟨hlast, hno⟩
  · exact .inl ⟨hlast, hk.invokes L rid s hX hs hi⟩
  · exact .inr ⟨hlast, hk.noInvoke hno⟩

/-! ## Requests that store a stream -/

/-- Nothing is left out. -/
abbrev AllEntries (σ : Registry) (last : Key → Option Kind) : Prop := σ.Entries (fun _ => False) last

/-- A stream of the right type comes under a rid. -/
theorem Entries.store {kind : Kind} (h : σ.AllEntries last)
    (hs : kind = .invocation ∧ σ.Invokes L rid s ∨ kind = .list ∧ σ.NoInvoke s) :
    (σ.setRequester L rid (some s)).AllEntries (Function.update last (L, rid) (some kind)) := by
  rintro M r x - ⟨link', hM, hget⟩
  have hM : (σ.link.modify L _).get M = some link' := hM
  by_cases hkey : (M, r) = (L, rid)
  · rw [hkey, Function.update_self]
    obtain ⟨rfl, rfl⟩ := Prod.mk.inj hkey
    rw [Heap.get_modify_self] at hM
    obtain ⟨link, -, rfl⟩ := Option.map_eq_some_iff.mp hM
    have hget : (link.requesterStreams.set r (some s)).get r = some x := hget
    rw [AssocMap.get_set, if_pos rfl] at hget
    cases hget
    refine ⟨s, rfl, ?_⟩
    rcases hs with ⟨rfl, hi⟩ | ⟨rfl, hno⟩
    · exact .inl ⟨rfl, hi⟩
    · exact .inr ⟨rfl, hno⟩
  · rw [Function.update_of_ne hkey]
    refine h M r x id ?_
    rw [Heap.get_modify] at hM
    split at hM
    · rename_i he
      subst he
      obtain ⟨link, hlink, rfl⟩ := Option.map_eq_some_iff.mp hM
      have hget : (link.requesterStreams.set rid (some s)).get r = some x := hget
      rw [AssocMap.get_set, if_neg (fun hr => hkey (by rw [hr]))] at hget
      exact ⟨link, hlink, hget⟩
    · exact ⟨link', hM, hget⟩

theorem setRequester_unlocked {x : Option StreamId} (hu : σ.Unlocked X) : (σ.setRequester L rid x).Unlocked X := by
  intro M link' hX hM
  have hM : (σ.link.modify L _).get M = some link' := hM
  rw [Heap.get_modify] at hM
  split at hM
  · rename_i he
    obtain ⟨link, hlink, rfl⟩ := Option.map_eq_some_iff.mp hM
    exact hu M link hX (by rw [he]; exact hlink)
  · exact hu M link' hX hM

theorem Seated.setRequester {x : Option StreamId} (h : σ.Seated) : (σ.setRequester L rid x).Seated where
  owns := h.owns
  link := by
    intro d M hd
    obtain ⟨link, hM, hnode⟩ := h.link d M hd
    by_cases he : M = L
    · refine ⟨{ link with requesterStreams := link.requesterStreams.set rid x }, ?_, hnode⟩
      show (σ.link.modify L _).get M = _
      rw [he, Heap.get_modify_self, ← he, hM]
      rfl
    · exact ⟨link, (Heap.get_modify_ne he).trans hM, hnode⟩

/-- The entries are right and no table is locked, and so are the list streams of nodes and their links. -/
structure Sound (σ : Registry) (last : Key → Option Kind) : Prop where
  entries : σ.AllEntries last
  unlocked : σ.Unlocked (fun _ => False)
  seated : σ.Seated

theorem Sound.keep (h : σ.Sound last) (hk : Keeps (fun _ => False) σ σ') : σ'.Sound last :=
  ⟨h.entries.keep hk, h.unlocked.keep hk, h.seated.keep hk⟩

theorem Sound.store {kind : Kind} (h : σ.Sound last)
    (hs : kind = .invocation ∧ σ.Invokes L rid s ∨ kind = .list ∧ σ.NoInvoke s) :
    (σ.setRequester L rid (some s)).Sound (Function.update last (L, rid) (some kind)) :=
  ⟨h.entries.store hs, setRequester_unlocked h.unlocked, h.seated.setRequester⟩

theorem brokerAddRequesterListStream_sound (h : σ.Sound last)
    (hs : σ.brokerAddRequesterListStream L s rid = some σ') :
    σ'.Sound (Function.update last (L, rid) (some .list)) := by
  simp only [brokerAddRequesterListStream, Option.bind_eq_bind, Option.bind_eq_some_iff] at hs
  obtain ⟨link, -, dsId, -, st, hst, τ, hτ, hs⟩ := hs
  obtain rfl := Option.some.inj hs
  have hst := listStream_eq_some.mp hst
  obtain ⟨hkeep, hstream⟩ : Keeps (fun _ => False) σ τ ∧ τ.stream = σ.stream := by
    unfold dropOldRid at hτ
    split at hτ
    · exact ⟨removeRequester_keeps hτ, (removeRequester_sameOwner hτ).2⟩
    · cases hτ
      exact ⟨.refl _ _, rfl⟩
  have hset : Keeps (fun _ => False) σ (τ.setStream s (.list { st with
      requesterLinks := (st.requesterLinks.erase dsId).set dsId (L, rid) })) := by
    refine hkeep.trans (setList_keeps (show τ.stream.get s = some (.list st) from ?_) rfl)
    rw [hstream]
    exact hst
  have hno : σ.NoInvoke s := by
    refine ⟨Heap.lt_next_of_get hst, fun st' hst' => ?_⟩
    cases hst.symm.trans hst'
  exact (h.keep hset).store (.inr ⟨rfl, hset.noInvoke hno⟩)

theorem brokerListSelf_sound {n : NodeId} (h : σ.Sound last) (hs : σ.brokerListSelf L n rid = some σ') :
    σ'.Sound (Function.update last (L, rid) (some .list)) := by
  simp only [brokerListSelf, Option.bind_eq_bind, Option.bind_eq_some_iff] at hs
  obtain ⟨node, -, hs⟩ := hs
  split at hs
  · exact brokerAddRequesterListStream_sound h hs
  · refine brokerAddRequesterListStream_sound (h.keep ?_) hs
    exact (alloc_keeps _).trans (keeps_same rfl rfl rfl)

theorem initRemoteListStream_sound {d : DownId} {path : CString} {respRid : Nat} (h : σ.Sound last)
    (hs : σ.initRemoteListStream d path L rid respRid = some σ') :
    σ'.Sound (Function.update last (L, rid) (some .list)) := by
  refine brokerAddRequesterListStream_sound (h.keep ?_) hs
  exact newRemoteList_keeps

theorem brokerListDslink_sound {d : DownId} {path : CString} (h : σ.Sound last)
    (hs : σ.brokerListDslink L d path rid = some σ') : σ'.Sound (Function.update last (L, rid) (some .list)) := by
  simp only [brokerListDslink, Option.bind_eq_bind, Option.bind_eq_some_iff] at hs
  obtain ⟨node, -, hs⟩ := hs
  split at hs
  · exact brokerAddRequesterListStream_sound h hs
  · simp only [Option.bind_eq_some_iff] at hs
    obtain ⟨τ, hτ, hs⟩ := hs
    obtain rfl := Option.some.inj hs
    refine (initRemoteListStream_sound (h.keep ?_) hτ).keep (setResponder_keeps _)
    exact keeps_modDnode (fun _ => ⟨fun _ h => h, fun _ _ h => h⟩)
  · exact initRemoteListStream_sound h hs

/-! ## An invoke that is passed on -/

theorem brokerMsgHandleInvoke_sound {d : DownId} (h : σ.Sound last) (hs : σ.brokerMsgHandleInvoke L d rid = some σ') :
    σ'.Sound (if ((σ.dnode.get d).bind DownstreamNode.link).isSome then
      Function.update last (L, rid) (some .invocation) else last) := by
  simp only [brokerMsgHandleInvoke, Option.bind_eq_bind, Option.bind_eq_some_iff] at hs
  obtain ⟨node, hd, hs⟩ := hs
  rw [hd]
  split at hs
  · rename_i hlink
    cases hs
    rw [if_neg (by simp [hlink])]
    exact h.keep (keeps_modDnode (fun _ => ⟨fun _ h => h, fun _ _ h => h⟩))
  · rename_i l hlink
    rw [if_pos (by simp [hlink])]
    simp only [Option.bind_eq_some_iff] at hs
    obtain ⟨link, -, ⟨τ, old⟩, hτ, υ, hυ, hs⟩ := hs
    obtain rfl := Option.some.inj hs
    set respRid := Broker.incrRid node.rid
    set ρ : Registry := { σ.modDnode d (fun node => { node with rid := respRid }) with
      stream := σ.stream.alloc (.invoke ⟨L, rid, .remote l respRid⟩) } with hρ
    have hρk : Keeps (fun _ => False) σ (ρ.setResponder l respRid (some σ.stream.next)) := by
      have hd : Keeps (fun _ => False) σ (σ.modDnode d (fun node => { node with rid := respRid })) :=
        keeps_modDnode (fun _ => ⟨fun _ h => h, fun _ _ h => h⟩)
      exact (hd.trans (alloc_keeps _)).trans (setResponder_keeps _)
    obtain ⟨hτk, hτstream, hheld⟩ := takeRequester_keeps (X := fun _ => False) hτ
    have hτk := hρk.trans hτk
    have hτs : τ.stream.get σ.stream.next = some (.invoke ⟨L, rid, .remote l respRid⟩) := by
      rw [hτstream]
      exact Heap.get_alloc_next _ _
    obtain ⟨hclose, hothers⟩ := closeOld_keeps (h.unlocked.keep hτk) hυ
    have hυs : υ.stream.get σ.stream.next = some (.invoke ⟨L, rid, .remote l respRid⟩) := by
      rw [hothers σ.stream.next, hτs]
      -- the old stream is another one
      intro old' hold'
      obtain ⟨s, hs, hkind⟩ := h.entries L rid _ id (hρk.holds L rid _ id (hheld _ hold'))
      cases hs
      rcases hkind with ⟨-, st, hst, -⟩ | ⟨-, hlt, -⟩
      · exact (Heap.ne_next_of_get hst).symm
      · exact Nat.ne_of_gt hlt
    exact (h.keep (hτk.trans hclose)).store (.inl ⟨rfl, _, hυs, rfl, rfl⟩)

/-! ## Runs -/

/-- A new link holds nothing; its node had no link. -/
theorem Sound.newLink {d : DownId} {dsId : Option CString} (h : σ.Sound last) : Sound
    ({ σ with link := σ.link.alloc ⟨dsId, d, .empty, .empty, false, false⟩ }.modDnode d
      (fun node => { node with link := some σ.link.next })) last := by
  have hget : ∀ {M : LinkId} {link' : RemoteDSLink},
      (σ.link.alloc ⟨dsId, d, .empty, .empty, false, false⟩).get M = some link' →
        link' = ⟨dsId, d, .empty, .empty, false, false⟩ ∨ σ.link.get M = some link' := by
    intro M link' hM
    rw [Heap.get_alloc] at hM
    split at hM
    · exact .inl (Option.some.inj hM).symm
    · exact .inr hM
  refine ⟨?_, ?_, ?_, ?_⟩
  · rintro M r x - ⟨link', hM, hheld⟩
    rcases hget hM with rfl | hold
    · cases hheld
    · exact h.entries M r x id ⟨link', hold, hheld⟩
  · intro M link' _ hM
    rcases hget hM with rfl | hold
    · rfl
    · exact h.unlocked M link' id hold
  · intro e p s hs
    have hs : ((σ.dnode.modify d _).get e).bind (fun node => node.listStreams.get p) = some s := hs
    refine h.seated.owns e p s ?_
    rw [Heap.get_modify] at hs
    split at hs
    · rename_i he
      obtain ⟨node, hnode, hs⟩ := Option.bind_eq_some_iff.mp hs
      obtain ⟨node', hnode', rfl⟩ := Option.map_eq_some_iff.mp hnode
      show (σ.dnode.get e).bind _ = some s
      rw [he, hnode']
      exact hs
    · exact hs
  · intro e M he
    have he : ((σ.dnode.modify d _).get e).bind DownstreamNode.link = some M := he
    rw [Heap.get_modify] at he
    split at he
    · rename_i hed
      obtain ⟨node, hnode, hM⟩ := Option.bind_eq_some_iff.mp he
      obtain ⟨node', -, rfl⟩ := Option.map_eq_some_iff.mp hnode
      obtain rfl := Option.some.inj hM
      exact ⟨_, Heap.get_alloc_next _ _, hed.symm⟩
    · obtain ⟨link, hM, hnode⟩ := h.seated.link e M he
      exact ⟨link, Heap.get_alloc_of_get hM, hnode⟩

theorem connect_sound {d : DownId} {dsId : Option CString} (h : σ.Sound last)
    (hs : σ.brokerDslinkConnect d dsId = some σ') : σ'.Sound last := by
  simp only [brokerDslinkConnect, Option.bind_eq_bind, Option.bind_eq_some_iff] at hs
  obtain ⟨node, -, hs⟩ := hs
  refine foldlM_invariant (fun τ => τ.Sound last) ?_ hs h.newLink
  intro τ s _ υ hτ hround
  simp only [brokerStreamListConnect, Option.bind_eq_bind, Option.bind_eq_some_iff] at hround
  obtain ⟨node', -, l, -, st, hst, hround⟩ := hround
  obtain rfl := Option.some.inj hround
  have hd : Keeps (fun _ => False) τ (τ.modDnode d (fun node => { node with rid := Broker.incrRid node'.rid })) :=
    keeps_modDnode (fun _ => ⟨fun _ h => h, fun _ _ h => h⟩)
  refine hτ.keep ((hd.trans ?_).trans (setResponder_keeps _))
  exact setList_keeps (listStream_eq_some.mp hst) rfl

/-- A link that is gone holds nothing. -/
theorem Sound.closed (h : σ.Sound last) (hs : σ.brokerCloseLink L = some σ') : σ'.Sound last := by
  obtain ⟨hk, hgone, -⟩ := brokerCloseLink_keeps h.unlocked hs
  refine ⟨?_, ?_, h.seated.closed h.unlocked hs⟩
  · rintro M r x - ⟨link', hM, hheld⟩
    have hne : M ≠ L := by
      rintro rfl
      cases hgone.symm.trans hM
    have hbut : σ.Entries (· = L) last := fun M r x _ hx => h.entries M r x id hx
    exact hbut.keep hk M r x hne ⟨link', hM, hheld⟩
  · intro M link' _ hM
    have hne : M ≠ L := by
      rintro rfl
      cases hgone.symm.trans hM
    obtain ⟨link, hlink, -, hlock⟩ := hk.link M link' hne hM
    rw [hlock]
    exact h.unlocked M link id hlink

theorem freeIfAny_keeps {x : Option StreamId} (hu : σ.Unlocked X) (hs : σ.freeIfAny x = some σ') : Keeps X σ σ' := by
  unfold freeIfAny at hs
  split at hs
  · exact brokerStreamFree_keeps hu hs
  · cases hs
    exact .refl _ _

/-- Every event stores a stream as it says, or stores none. -/
theorem step_sound {e : Event} (h : σ.Sound last) (hs : σ.step e = some σ') :
    σ'.Sound (σ.record last e) := by
  cases e with
  | addNode path =>
    cases hs
    exact h.keep (keeps_same rfl rfl rfl)
  | addDownstream =>
    cases hs
    exact h.keep newDownstream_keeps
  | takeRid d =>
    obtain ⟨node, -, rfl⟩ := Option.map_eq_some_iff.mp hs
    exact h.keep (keeps_modDnode (fun _ => ⟨fun _ h => h, fun _ _ h => h⟩))
  | connect d dsId =>
    simp only [step, Option.bind_eq_bind, Option.bind_eq_some_iff] at hs
    obtain ⟨node, -, hs⟩ := hs
    split at hs
    · cases hs
    · exact connect_sound h hs
  | closeLink L => exact h.closed hs
  | listSelf L n rid =>
    obtain ⟨-, -, hs⟩ := Option.bind_eq_some_iff.mp hs
    exact brokerListSelf_sound h hs
  | listDslink L d path rid =>
    obtain ⟨-, -, hs⟩ := Option.bind_eq_some_iff.mp hs
    exact brokerListDslink_sound h hs
  | invoke L d rid =>
    obtain ⟨-, -, hs⟩ := Option.bind_eq_some_iff.mp hs
    have hsound := brokerMsgHandleInvoke_sound h hs
    by_cases hlink : ((σ.dnode.get d).bind DownstreamNode.link).isSome
    · rw [if_pos hlink] at hsound
      rw [record_stored (show σ.stored (.invoke L d rid) = some ((L, rid), .invocation) from if_pos hlink)]
      exact hsound
    · rw [if_neg hlink] at hsound
      rw [record_none (show σ.stored (.invoke L d rid) = none from if_neg hlink)]
      exact hsound
  | query L rid visits =>
    obtain ⟨-, -, hs⟩ := Option.bind_eq_some_iff.mp hs
    exact ((h.keep (alloc_keeps _)).store (.inl ⟨rfl, _, Heap.get_alloc_next _ _, rfl, rfl⟩)).keep
      (addListeners_keeps hs)
  | publish L rid =>
    obtain ⟨-, -, hs⟩ := Option.bind_eq_some_iff.mp hs
    cases hs
    exact (h.keep (alloc_keeps _)).store (.inl ⟨rfl, _, Heap.get_alloc_next _ _, rfl, rfl⟩)
  | close L rid =>
    obtain ⟨-, -, hs⟩ := Option.bind_eq_some_iff.mp hs
    simp only [brokerMsgHandleClose, Option.bind_eq_bind, Option.bind_eq_some_iff] at hs
    obtain ⟨⟨τ, old⟩, hτ, hs⟩ := hs
    obtain ⟨hτk, -⟩ := takeRequester_keeps (X := fun _ => False) hτ
    -- the entry is taken before its stream hears of it
    have hτs := h.keep hτk
    split at hs
    · simp only [Option.bind_eq_some_iff] at hs
      obtain ⟨s, -, hs⟩ := hs
      exact hτs.keep (requesterStreamClosed_keeps hτs.unlocked hs)
    · cases hs
      exact hτs
  | response L rid closed =>
    obtain ⟨-, -, hs⟩ := Option.bind_eq_some_iff.mp hs
    simp only [brokerHandleResp, Option.bind_eq_bind, Option.bind_eq_some_iff] at hs
    obtain ⟨link, -, hs⟩ := hs
    split at hs
    · cases hs
      exact h
    · simp only [Option.bind_eq_some_iff] at hs
      obtain ⟨s, -, stream, -, hs⟩ := hs
      split at hs
      · cases hs
        exact h
      · simp only [Option.bind_eq_some_iff] at hs
        obtain ⟨-, -, hs⟩ := hs
        split at hs
        · simp only [Option.bind_eq_some_iff] at hs
          obtain ⟨s', -, hs⟩ := hs
          exact h.keep (brokerStreamFree_keeps h.unlocked hs)
        · cases hs
          exact h
  | childAdded id visits =>
    simp only [step, queryChildAdded, Option.bind_eq_bind, Option.bind_eq_some_iff] at hs
    obtain ⟨listener, -, hs⟩ := hs
    split at hs
    · exact h.keep (addListeners_keeps hs)
    · cases hs
  | freeNode n =>
    simp only [step, freeNode, Option.bind_eq_bind, Option.bind_eq_some_iff] at hs
    obtain ⟨node, -, τ, hτ, hs⟩ := hs
    obtain rfl := Option.some.inj hs
    have hl : Keeps (fun _ => False) σ (σ.removeListeners n) := keeps_same rfl rfl rfl
    have hτk := hl.trans (freeIfAny_keeps (h.unlocked.keep hl) hτ)
    exact h.keep (hτk.trans (keeps_same rfl rfl rfl))
  | freeDownstream d =>
    simp only [step, freeDownstreamNode, Option.bind_eq_bind, Option.bind_eq_some_iff] at hs
    obtain ⟨node, -, hs⟩ := hs
    split at hs
    · cases hs
    · simp only [Option.bind_eq_some_iff] at hs
      obtain ⟨τ, hτ, hs⟩ := hs
      obtain rfl := Option.some.inj hs
      have hτs : τ.Sound last := by
        refine foldlM_invariant (fun τ => τ.Sound last) ?_ hτ h
        exact fun _ _ _ _ hρ hround => hρ.keep (brokerStreamFree_keeps hρ.unlocked hround)
      exact hτs.keep freeDownstream_keeps

theorem empty_sound (last : Key → Option Kind) : empty.Sound last where
  entries := by
    rintro L rid x - ⟨link, hL, -⟩
    cases hL
  unlocked := by
    intro L link _ hL
    cases hL
  seated := by
    refine ⟨fun d p s hs => ?_, fun d L hd => ?_⟩
    · cases hs
    · cases hd

/-- Without a condition on the run. -/
theorem reach_sound {S : Session} (h : Reach Session.step (fun _ _ => True) (· = Session.empty) S) :
    S.reg.Sound S.last := by
  refine Reach.invariant (fun S => S.reg.Sound S.last) ?_ ?_ h
  · rintro S rfl
    exact empty_sound _
  · intro S e S' hS _ hs
    cases e with
    | event e =>
      obtain ⟨reg, hreg, rfl⟩ := Option.map_eq_some_iff.mp hs
      exact step_sound hS hreg
    | methodless L rid =>
      simp only [Session.step, Option.bind_eq_bind, Option.bind_eq_some_iff] at hs
      obtain ⟨slot, -, hs⟩ := hs
      split at hs
      · split at hs
        · cases hs
          exact hS
        · cases hs
      · cases hs
        exact hS

/-- A request without a method on `L`: it reads `continuous_invoke` of an invoke stream or nothing, and calls nothing
    if its rid is the one of a list stream. -/
structure ContinuousInvokeTyped (σ : Registry) (L : LinkId) (rid : Nat) : Prop where
  reads : ∃ slot, σ.handleMethodless L rid = some slot ∧
    ∀ x, slot = some x → ∃ callback, x = .continuousInvoke callback
  quiet : ∀ s st slot, σ.Holds L rid (some s) → σ.stream.get s = some (.list st) →
    σ.handleMethodless L rid = some (some slot) → slot.calls = false

/-- In every reachable state a request without a method on a link reads an invoke stream or nothing if and only if
    there is no stream under its rid, or the last request that stored one there was no list request. -/
theorem continuous_invoke_typed {S : Session} (h : Reach Session.step (fun _ _ => True) (· = Session.empty) S)
    {L : LinkId} {link : RemoteDSLink} (hL : S.reg.link.get L = some link) (rid : Nat) :
    S.reg.ContinuousInvokeTyped L rid ↔
      link.requesterStreams.get rid = none ∨ S.last (L, rid) ≠ some .list := by
  have hsound := reach_sound h
  cases hget : link.requesterStreams.get rid with
  | none =>
    have hread : S.reg.handleMethodless L rid = some none := by simp [handleMethodless, hL, hget]
    refine iff_of_true ⟨⟨none, hread, fun x hx => by cases hx⟩, ?_⟩ (.inl rfl)
    intro s st slot hheld _ hslot
    rw [hread] at hslot
    cases hslot
  | some data =>
    obtain ⟨s, rfl, hkind⟩ := hsound.entries L rid data id ⟨link, hL, hget⟩
    have hread : S.reg.handleMethodless L rid = (S.reg.stream.get s).map (fun stream => some stream.slot) := by
      simp only [handleMethodless, hL, hget, Option.bind_eq_bind, Option.bind_some]
      cases S.reg.stream.get s <;> rfl
    rcases hkind with ⟨hlast, st, hst, -⟩ | ⟨hlast, -, hno⟩
    · -- an invoke stream
      refine iff_of_true ⟨⟨some (.continuousInvoke st.call.continuousInvoke), ?_, ?_⟩, ?_⟩ (.inr ?_)
      · rw [hread, hst]
        rfl
      · rintro x ⟨⟩
        exact ⟨_, rfl⟩
      · rintro t st' slot ⟨link', hL', hget'⟩ ht -
        cases hL.symm.trans hL'
        cases hget.symm.trans hget'
        cases hst.symm.trans ht
      · rw [hlast]
        simp
    · -- a list stream, or a freed one
      refine iff_of_false ?_ (by simp [hlast])
      rintro ⟨⟨slot, hslot, hcallback⟩, -⟩
      rw [hread] at hslot
      obtain ⟨stream, hstream, rfl⟩ := Option.map_eq_some_iff.mp hslot
      obtain ⟨callback, hc⟩ := hcallback _ rfl
      cases stream with
      | invoke st => exact hno st hstream
      | list st => cases hc

/-- A publish stream under a rid that was once the one of a list stream. -/
theorem continuous_invoke_typed_publish : ∃ S : Session,
    S.reg.handleMethodless 0 5 = some (some (.continuousInvoke (some .onPublishContinuousInvoked))) ∧
      S.reg.ContinuousInvokeTyped 0 5 := by
  have hrun := Reach.of_eval Session.step (some Session.empty)
    ([.event .addDownstream, .event (.connect 0 (some (cstr "a"))), .event (.addNode (cstr "/data")),
      .event (.listSelf 0 0 5), .event (.close 0 5), .event (.publish 0 5), .methodless 0 5])
    (fun S => decide (S.reg.handleMethodless 0 5 = some (some (.continuousInvoke (some .onPublishContinuousInvoked))) ∧
      S.last (0, 5) ≠ some .list)) (by decide)
  obtain ⟨S, hreach, hcheck⟩ := hrun
  obtain ⟨hread, hlast⟩ := of_decide_eq_true hcheck
  obtain ⟨link, hL⟩ : ∃ link, S.reg.link.get 0 = some link := by
    simp only [handleMethodless, Option.bind_eq_bind, Option.bind_eq_some_iff] at hread
    obtain ⟨link, hL, -⟩ := hread
    exact ⟨link, hL⟩
  have hreach : Reach Session.step (fun _ _ => True) (· = Session.empty) S :=
    hreach.of_init (fun _ h0 => (Option.some.inj h0).symm)
  exact ⟨S, hread, (continuous_invoke_typed hreach hL 5).mpr (.inr hlast)⟩

/-- A list stream of another link: its `responder_rid` is read and called. -/
theorem continuous_invoke_not_typed : ∃ S : Session, Reach Session.step (fun _ _ => True) (· = Session.empty) S ∧
    S.reg.handleMethodless 0 5 = some (some (.responderRid 1)) ∧ Slot.calls (.responderRid 1) = true ∧
      ¬S.reg.ContinuousInvokeTyped 0 5 := by
  have hrun := Reach.of_eval Session.step (some Session.empty)
    ([.event .addDownstream, .event (.connect 0 (some (cstr "a"))), .event .addDownstream,
      .event (.connect 1 (some (cstr "b"))), .event (.listDslink 0 1 (cstr "/") 5)])
    (fun S => decide (S.reg.handleMethodless 0 5 = some (some (.responderRid 1)))) (by decide)
  obtain ⟨S, hreach, hcheck⟩ := hrun
  have hread := of_decide_eq_true hcheck
  refine ⟨S, hreach.of_init (fun _ h0 => (Option.some.inj h0).symm), hread, rfl, ?_⟩
  rintro ⟨⟨slot, hslot, hcallback⟩, -⟩
  cases hread.symm.trans hslot
  obtain ⟨callback, hc⟩ := hcallback _ rfl
  cases hc

end Registry

end DSLink
