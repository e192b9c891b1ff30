import DSLink.Broker.Closed

/-!
# `Broker.Opened` — the handlers that open a stream

A new stream is filed under a rid that its link does not use yet. Each result here names the entries that have to
be free for it.

## Contents
- `alloc_book`, a stream that no table knows yet.
- `brokerAddRequesterListStream_book`, and the list requests on it.
- `addListeners_book`, the listeners of a query.
-/

namespace DSLink

namespace Registry

open CrossIndex

variable {σ σ' τ : Registry} {X E : StreamId → Key → Prop} {O : StreamId → Prop} {s : StreamId} {L : LinkId} {rid : Nat}

/-! ## A new stream -/

/-- A stream that no table knows yet. -/
theorem alloc_book {X' : StreamId → Key → Prop} {O' : StreamId → Prop} {st : BrokerStream} (h : σ.Book X E O)
    (hX : ∀ t k, X t k → X' t k) (hO : ∀ t, O t → O' t) (hnew : O' σ.stream.next)
    (hreq : ∀ k, st.requesters k → σ.reqTable k = none ∧ X' σ.stream.next k)
    (hresp : ∀ k, σ.responders st k → σ.respTable k = none)
    (hlist : ∀ x, st = .list x → σ.ownTable (x.node, x.remotePath) = none ∧ ∀ i, x.requesterLinks.get i = none)
    (hquery : ∀ x data kind path, st = .invoke x → x.call = .query data → (data.listeners kind).get path = none) :
    ({ σ with stream := σ.stream.alloc st } : Registry).Book X' E O' := by
  have hget : ∀ t x, (σ.stream.alloc st).get t = some x → t = σ.stream.next ∧ x = st ∨
      t ≠ σ.stream.next ∧ σ.stream.get t = some x := by
    intro t x ht
    rw [Heap.get_alloc] at ht
    split at ht
    · rename_i hts
      cases ht
      exact .inl ⟨hts, rfl⟩
    · rename_i hts
      exact .inr ⟨hts, ht⟩
  have hold : ∀ t x, σ.stream.get t = some x → (σ.stream.alloc st).get t = some x :=
    fun t x ht => Heap.get_alloc_of_get ht
  refine ⟨?_, ?_, ?_, ?_, ?_, ?_, ?_, h.nodeLink, h.linkNode, ?_, ?_⟩
  · rintro t k ⟨x, ht, hk⟩
    rcases hget t x ht with ⟨rfl, rfl⟩ | ⟨-, ht⟩
    · exact .inr ⟨(hreq k hk).2, (hreq k hk).1⟩
    · exact (h.requester t k ⟨x, ht, hk⟩).imp id (fun hx => ⟨hX t k hx.1, hx.2⟩)
  · refine h.requested.mono ?_ (fun _ _ he => he)
    rintro t k - ⟨x, ht, hk⟩
    exact .inl ⟨x, hold t x ht, hk⟩
  · rintro t k ⟨x, ht, hk⟩
    rcases hget t x ht with ⟨rfl, rfl⟩ | ⟨-, ht⟩
    · exact .inr ⟨hnew, hresp k (by cases x <;> exact hk)⟩
    · exact (h.responder t k ⟨x, ht, by cases x <;> exact hk⟩).imp id (fun hx => ⟨hO t hx.1, hx.2⟩)
  · rintro t k ⟨x, ht, rfl⟩
    rcases hget t _ ht with ⟨rfl, hx⟩ | ⟨-, ht⟩
    · exact .inr ⟨hnew, (hlist x hx.symm).1⟩
    · exact (h.owner t _ ⟨x, ht, rfl⟩).imp id (fun hx => ⟨hO t hx.1, hx.2⟩)
  · refine h.owned.mono ?_ ?_
    · rintro t k - ⟨x, ht, hk⟩
      exact .inl ⟨x, hold t _ ht, hk⟩
    · rintro t - ⟨hlt, hnone⟩
      refine ⟨Nat.lt_succ_of_lt hlt, ?_⟩
      show (σ.stream.alloc st).get t = none
      rw [Heap.get_alloc, if_neg (Nat.ne_of_lt hlt), hnone]
  · intro t k hk
    obtain ⟨hlt, hcall⟩ := h.answered t k hk
    refine ⟨Nat.lt_succ_of_lt hlt, fun x ht => ?_⟩
    rcases hget t _ ht with ⟨rfl, -⟩ | ⟨-, ht⟩
    · exact absurd hlt (Nat.lt_irrefl _)
    · exact hcall x ht
  · intro t x dsId k ht hk
    rcases hget t _ ht with ⟨-, hx⟩ | ⟨-, ht⟩
    · rw [(hlist x hx.symm).2 dsId] at hk
      cases hk
    · exact h.dsId t x dsId k ht hk
  · intro id listener at' hid hat
    obtain ⟨x, data, path, hx, hdata, hpath⟩ := h.listeners id listener at' hid hat
    exact ⟨x, data, path, hold _ _ hx, hdata, hpath⟩
  · intro t x data kind path id ht hdata hid
    rcases hget t _ ht with ⟨-, hx⟩ | ⟨-, ht⟩
    · rw [hquery x data kind path hx.symm hdata] at hid
      cases hid
    · exact h.entered t x data kind path id ht hdata hid

/-! ## List requests -/

/-- The rid under which `L` already listed the stream is free again. -/
theorem dropOldRid_book {st : BrokerListStream} {dsId : CString} (h : σ.Book nowhere nowhere O)
    (hu : σ.UnlockedBut (fun _ => False)) (hst : σ.stream.get s = some (.list st))
    (hsame : ∀ k, st.requesterLinks.get dsId = some k → k.1 = L)
    (hs : σ.dropOldRid L (st.requesterLinks.get dsId) = some τ) :
    τ.Book (fun t k => t = s ∧ st.requesterLinks.get dsId = some k) nowhere O ∧ Closes s σ τ ∧
      τ.stream = σ.stream ∧ τ.respTable = σ.respTable ∧ τ.ownTable = σ.ownTable ∧
      (∀ k, st.requesterLinks.get dsId = some k → τ.reqTable k = none) ∧
      ∀ k t, τ.reqTable k = some t → σ.reqTable k = some t := by
  cases hold : st.requesterLinks.get dsId with
  | none =>
    rw [hold] at hs
    cases hs
    refine ⟨h.mono (fun _ _ _ hx => hx.elim) (fun _ _ he => he) (fun _ ho => ho), .refl s _, rfl, rfl, rfl, ?_,
      fun _ _ hk => hk⟩
    intro k hk
    cases hk
  | some k =>
    obtain ⟨l, old⟩ := k
    obtain rfl : l = L := hsame _ hold
    rw [hold] at hs
    have hs : σ.removeRequester l old = some τ := hs
    obtain ⟨hb, hc, hstream, -, hgone⟩ := removeRequester_book (s := s) h
      (Y := fun t k => t = s ∧ some (l, old) = some k) (fun _ _ hx => hx.elim) (fun t ht => by
        have hself : σ.reqNames s (l, old) := ⟨_, hst, dsId, hold⟩
        have hfiled := h.requester.filed hself (fun hf => hf)
        have hfiled' := h.requester.filed ht (fun hf => hf)
        exact ⟨Option.some.inj (hfiled'.symm.trans hfiled), rfl⟩) hs
    have hnone : τ.reqTable (l, old) = none := by
      refine hgone.resolve_right ?_
      rintro ⟨link, hl, hlocked⟩
      rw [(hu l link hl (fun hf => hf)).1] at hlocked
      cases hlocked
    refine ⟨hb, hc, hstream, ?_, ?_, ?_, ?_⟩
    · obtain ⟨link, -, ⟨-, rfl⟩ | ⟨-, rfl⟩⟩ := removeRequester_cases hs
      · rfl
      · exact respTable_same (fun _ => rfl)
    · obtain ⟨link, -, ⟨-, rfl⟩ | ⟨-, rfl⟩⟩ := removeRequester_cases hs
      · rfl
      · rfl
    · rintro k hk
      cases hk
      exact hnone
    · intro k t hk
      cases hσ : σ.reqTable k with
      | none => exact absurd ((hc.reqTable k hσ).symm.trans hk) (by simp)
      | some u =>
        have hname : τ.reqNames u k := by
          obtain ⟨x, hx, hxk⟩ := (h.requested u k hσ).resolve_right (fun hf => hf)
          exact ⟨x, hstream ▸ hx, hxk⟩
        rcases hb.requester u k hname with hk' | ⟨-, hk'⟩
        · exact congrArg some (Option.some.inj (hk'.symm.trans hk))
        · exact absurd (hk'.symm.trans hk) (by simp)

/-- Links that keep their locks. -/
theorem UnlockedBut.modLink {P : LinkId → Prop} {f : RemoteDSLink → RemoteDSLink} (h : σ.UnlockedBut P)
    (hreq : ∀ link, (f link).requesterLocked = link.requesterLocked)
    (hresp : ∀ link, (f link).responderLocked = link.responderLocked) : (σ.modLink L f).UnlockedBut P := by
  intro l link' hl hP
  have hmod : (σ.link.modify L f).get l = some link' := hl
  rw [Heap.get_modify] at hmod
  split at hmod
  · rename_i hlL
    obtain ⟨link, hL, rfl⟩ := Option.map_eq_some_iff.mp hmod
    rw [hreq, hresp]
    exact h L link hL (hlL ▸ hP)
  · exact h l link' hmod hP

/-- What a list request leaves alone. -/
structure Requests (s : StreamId) (σ σ' : Registry) : Prop where
  respTable : σ'.respTable = σ.respTable
  respNames : ∀ t k, σ'.respNames t k → σ.respNames t k
  ownTable : σ'.ownTable = σ.ownTable
  ownNames : ∀ t k, σ'.ownNames t k → σ.ownNames t k
  links : Heap.Rel RemoteDSLink.Agree σ.link σ'.link
  list : ∃ st, σ'.stream.get s = some (.list st)

/-- `broker_add_requester_list_stream` under a rid that is free or already stands for the same stream. Another link
    with the same dsId must not use the stream. -/
theorem brokerAddRequesterListStream_book (h : σ.Book nowhere nowhere O) (hu : σ.UnlockedBut (fun _ => False))
    (hfree : ∀ t, σ.reqTable (L, rid) = some t → t = s)
    (hsame : ∀ link st dsId k, σ.link.get L = some link → σ.stream.get s = some (.list st) → link.dsId = some dsId →
      st.requesterLinks.get dsId = some k → k.1 = L)
    (hs : σ.brokerAddRequesterListStream L s rid = some σ') :
    σ'.Book nowhere nowhere O ∧ σ'.UnlockedBut (fun _ => False) ∧ Requests s σ σ' := by
  simp only [brokerAddRequesterListStream, Option.bind_eq_bind, Option.bind_eq_some_iff, Option.some.injEq] at hs
  obtain ⟨link, hL, dsId, hid, st, hlist, τ, hτ, rfl⟩ := hs
  have hst : σ.stream.get s = some (.list st) := by
    unfold listStream at hlist
    split at hlist
    · cases hlist
      assumption
    · cases hlist
  obtain ⟨hb, hc, hstream, hresp, hown, hgone, hless⟩ :=
    dropOldRid_book h hu hst (fun k hk => hsame link st dsId k hL hst hid hk) hτ
  have hst' : τ.stream.get s = some (.list st) := hstream ▸ hst
  obtain ⟨link', hL', hshrink⟩ := hc.link.get hL
  set links := (st.requesterLinks.erase dsId).set dsId (L, rid) with hlinks
  set υ := τ.setStream s (.list { st with requesterLinks := links }) with hυ
  have hlinksGet : ∀ i k, links.get i = some k ↔
      i = dsId ∧ k = (L, rid) ∨ i ≠ dsId ∧ st.requesterLinks.get i = some k := by
    intro i k
    rw [hlinks, AssocMap.get_set]
    by_cases hi : i = dsId
    · simp [hi, eq_comm]
    · simp [hi, AssocMap.get_erase_ne hi]
  have hget : ∀ t, υ.stream.get t = if t = s then some (.list { st with requesterLinks := links }) else τ.stream.get t :=
    get_setStream hst' _
  have hself : ∀ k, υ.reqNames s k ↔ ∃ i, links.get i = some k := by
    intro k
    unfold reqNames
    rw [hget, if_pos rfl]
    simp [BrokerStream.requesters]
  have hother : ∀ t k, t ≠ s → (υ.reqNames t k ↔ τ.reqNames t k) := by
    intro t k hts
    unfold reqNames
    rw [hget, if_neg hts]
  -- a requester under another dsId is another link
  have hdistinct : ∀ i k, i ≠ dsId → st.requesterLinks.get i = some k → st.requesterLinks.get dsId ≠ some k := by
    intro i k hi hk hk'
    obtain ⟨link₁, hl₁, hid₁⟩ := hb.dsId s st i k hst' hk
    obtain ⟨link₂, hl₂, hid₂⟩ := hb.dsId s st dsId k hst' hk'
    cases hl₁.symm.trans hl₂
    exact hi (Option.some.inj (hid₁.symm.trans hid₂))
  have hentry : τ.reqTable (L, rid) = some s ∨ τ.reqTable (L, rid) = none := by
    cases hk : τ.reqTable (L, rid) with
    | none => exact .inr rfl
    | some t => exact .inl (congrArg some (hfree t (hless _ t hk)))
  -- the requester is on the stream, and not yet in the table of the link
  have hbυ : υ.Book (fun t k => t = s ∧ k = (L, rid)) nowhere O := by
    refine setList_book hb hst' rfl (fun _ hk => hk) ?_ ?_ ?_
    · intro t k ht
      by_cases hts : t = s
      · subst hts
        obtain ⟨i, hi⟩ := (hself k).mp ht
        rcases (hlinksGet i k).mp hi with ⟨-, rfl⟩ | ⟨hne, hk⟩
        · exact hentry.imp id (fun hnone => ⟨⟨rfl, rfl⟩, hnone⟩)
        · refine .inl (hb.requester.filed ⟨_, hst', i, hk⟩ ?_)
          rintro ⟨-, hk'⟩
          exact hdistinct i k hne hk hk'
      · have ht' := (hother t k hts).mp ht
        exact .inl (hb.requester.filed ht' (fun hx => hts hx.1))
    · intro t k hk
      obtain ⟨x, hx, hxk⟩ := (hb.requested t k hk).resolve_right (fun hf => hf)
      by_cases hts : t = s
      · subst hts
        cases hst'.symm.trans hx
        obtain ⟨i, hi⟩ := hxk
        refine .inl ((hself k).mpr ⟨i, (hlinksGet i k).mpr (.inr ⟨?_, hi⟩)⟩)
        rintro rfl
        exact absurd (hk.symm.trans (hgone k hi)) (by simp)
      · exact .inl ((hother t k hts).mpr ⟨x, hx, hxk⟩)
    · intro i k hi
      rcases (hlinksGet i k).mp hi with ⟨rfl, rfl⟩ | ⟨-, hk⟩
      · exact ⟨link', hL', hshrink.dsId.trans hid⟩
      · exact hb.dsId s st i k hst' hk
  have hLυ : υ.link.get L = some link' := hL'
  refine ⟨setRequester_book hbυ hLυ ?_ ?_, ?_, ?_, ?_, hown, ?_, ?_, ?_⟩
  · refine hbυ.requester.insert (fun _ _ _ hn => hn) (fun t ht => ?_) (fun t l _ hx hne => absurd hx.2 hne)
    by_contra hts
    have hname := (hother t _ hts).mp ht
    exact hts (hfree t (hless _ t (hb.requester.filed hname (fun hx => hts hx.1))))
  · exact hbυ.requested.insert (fun _ _ _ hn => .inl hn) (fun _ _ _ he => he)
      ((hself _).mpr ⟨dsId, (hlinksGet _ _).mpr (.inl ⟨rfl, rfl⟩)⟩)
  · have huυ : υ.UnlockedBut (fun _ => False) := hc.unlocked hu
    exact huυ.modLink (fun _ => rfl) (fun _ => rfl)
  · have hset : (υ.setRequester L rid (some s)).respTable = υ.respTable := respTable_same (fun _ => rfl)
    exact hset.trans hresp
  · intro t k hn
    have hset : (υ.setRequester L rid (some s)).respNames = υ.respNames := respNames_modLink (fun _ => rfl)
    rw [hset] at hn
    obtain ⟨x, hx, hk⟩ := hn
    have hnτ : τ.respNames t k := by
      rw [hget] at hx
      split at hx
      · rename_i hts
        cases hx
        exact ⟨.list st, hts ▸ hst', hk⟩
      · exact ⟨x, hx, by cases x <;> exact hk⟩
    exact respNames_mono hstream (fun d l hl => hc.openLink ▸ hl) t k hnτ
  · rintro t k ⟨x, hx, hk⟩
    have hx : υ.stream.get t = some (.list x) := hx
    rw [hget] at hx
    split at hx
    · rename_i hts
      cases hx
      exact ⟨st, hts ▸ hst, hk⟩
    · exact ⟨x, hstream ▸ hx, hk⟩
  · have hagree : Heap.Rel RemoteDSLink.Agree τ.link (υ.setRequester L rid (some s)).link :=
      modLink_agree (fun _ => ⟨rfl, rfl⟩)
    exact hc.agree.trans (fun a b c hab hbc => ⟨hbc.1.trans hab.1, hbc.2.trans hab.2⟩) hagree
  · exact ⟨_, by
      show υ.stream.get s = _
      rw [hget, if_pos rfl]⟩

/-- An exception that is not used can go. -/
theorem Book.settle (h : σ.Book X E O) (hresp : ∀ t k, O t → σ.respNames t k → σ.respTable k = some t)
    (hown : ∀ t k, O t → σ.ownNames t k → σ.ownTable k = some t) : σ.Book X E (fun _ => False) :=
  { h with
    responder := h.responder.mono (fun _ _ hn => hn) (fun t k hn hO hnone => by
      cases hnone.symm.trans (hresp t k hO hn))
    owner := h.owner.mono (fun _ _ hn => hn) (fun t k hn hO hnone => by
      cases hnone.symm.trans (hown t k hO hn)) }

/-- A stream that is missing at its node is entered there. -/
theorem setOwner_book {k : NodeRef × CString} (h : σ.Book X E O) (hc : Closes s σ σ') (hstream : σ'.stream = σ.stream)
    (hlink : σ'.link = σ.link) (hlistener : σ'.listener = σ.listener)
    (htable : σ'.ownTable = Function.update σ.ownTable k (some s)) (hself : σ.ownNames s k)
    (honly : ∀ t, σ.ownNames t k → t = s) : σ'.Book X E O := by
  have hreq : σ'.reqTable = σ.reqTable := by
    unfold reqTable
    rw [hlink]
  have hresp : σ'.respTable = σ.respTable := by
    unfold respTable
    rw [hlink]
  apply h.of_closes hc hstream hlistener (hreq ▸ h.requester) (hreq ▸ h.requested) (hresp ▸ h.responder)
  · rw [htable]
    exact h.owner.insert (fun _ _ _ hn => hn) honly (fun _ _ _ hx _ => hx)
  · rw [htable]
    exact h.owned.insert (fun _ _ _ hn => .inl hn) (fun _ _ _ hx => hx) hself

/-- The rid counter of a node is in no table. -/
theorem setRid_book {d : DownId} {r : Nat} (h : σ.Book X E O) :
    (σ.modDnode d (fun node => { node with rid := r })).Book X E O := by
  have hc : Closes 0 σ (σ.modDnode d (fun node => { node with rid := r })) := closes_modDnode (fun _ => rfl)
  have hown : (σ.modDnode d (fun node => { node with rid := r })).ownTable = σ.ownTable := by
    funext k
    obtain ⟨ref, p⟩ := k
    cases ref with
    | regular n => rfl
    | downstream e =>
      show ((σ.dnode.modify d _).get e).bind _ = (σ.dnode.get e).bind _
      rw [Heap.get_modify]
      split
      · rename_i he
        subst he
        cases σ.dnode.get e <;> rfl
      · rfl
  exact h.of_closes hc rfl rfl h.requester h.requested h.responder (hown ▸ h.owner) (hown ▸ h.owned)

/-- Where a link may file a list stream of its own under a rid. -/
def MayJoin (σ : Registry) (L : LinkId) (rid : Nat) : Option StreamId → Prop
  | some s => (∀ t ∈ σ.reqTable (L, rid), t = s) ∧ ∀ link ∈ σ.link.get L, ∀ dsId ∈ link.dsId, ∀ st ∈ σ.listStream s,
      ∀ k ∈ st.requesterLinks.get dsId, k.1 = L
  | none => σ.reqTable (L, rid) = none

theorem listStream_eq_some {st : BrokerListStream} : σ.listStream s = some st ↔ σ.stream.get s = some (.list st) := by
  unfold listStream
  constructor
  · intro h
    split at h
    · cases h
      assumption
    · cases h
  · intro h
    rw [h]

/-- A list request for a stream that is open. -/
theorem joinStream_registered (h : σ.Registered) (hfree : σ.MayJoin L rid (some s))
    (hs : σ.brokerAddRequesterListStream L s rid = some σ') : σ'.Registered := by
  obtain ⟨hb, hu, -⟩ := brokerAddRequesterListStream_book h.book h.unlocked hfree.1
    (fun link st dsId k hL hst hid hk => hfree.2 link hL dsId hid st (listStream_eq_some.mpr hst) k hk) hs
  exact ⟨hb, hu⟩

/-- What the new stream and the others name. -/
theorem alloc_names {st : BrokerStream} {k : Key} : ({ σ with stream := σ.stream.alloc st } : Registry).respNames s k ↔
    if s = σ.stream.next then σ.responders st k else σ.respNames s k := by
  unfold respNames
  show (∃ x, (σ.stream.alloc st).get s = some x ∧ _) ↔ _
  rw [Heap.get_alloc]
  by_cases hs : s = σ.stream.next
  · rw [if_pos hs, if_pos hs]
    constructor
    · rintro ⟨x, hx, hk⟩
      cases hx
      cases st <;> exact hk
    · intro hk
      exact ⟨st, rfl, by cases st <;> exact hk⟩
  · rw [if_neg hs, if_neg hs]
    constructor
    · rintro ⟨x, hx, hk⟩
      exact ⟨x, hx, by cases x <;> exact hk⟩
    · rintro ⟨x, hx, hk⟩
      exact ⟨x, hx, by cases x <;> exact hk⟩

theorem alloc_ownNames {x : BrokerStream} {k : NodeRef × CString} :
    ({ σ with stream := σ.stream.alloc x } : Registry).ownNames s k ↔
    if s = σ.stream.next then ∃ y, x = .list y ∧ (y.node, y.remotePath) = k else σ.ownNames s k := by
  unfold ownNames
  show (∃ y, (σ.stream.alloc x).get s = some (.list y) ∧ _) ↔ _
  rw [Heap.get_alloc]
  by_cases hs : s = σ.stream.next
  · simp [hs]
  · simp [hs]

/-- A new list stream at a node that has none, for its first requester. It still has to be answered somewhere. -/
theorem openList_book {u : Registry} {st : BrokerListStream} (h : σ.Registered) (hempty : st.requesterLinks = .empty)
    (hnone : σ.ownTable (st.node, st.remotePath) = none) (hfree : σ.reqTable (L, rid) = none)
    (hresp : ∀ k, σ.responders (.list st) k → σ.respTable k = none)
    (hτ : τ = { σ with stream := σ.stream.alloc (.list st) }) (hc : Closes σ.stream.next τ u)
    (hstream : u.stream = τ.stream) (hlink : u.link = τ.link) (hlistener : u.listener = τ.listener)
    (htable : u.ownTable = Function.update σ.ownTable (st.node, st.remotePath) (some σ.stream.next))
    (hs : u.brokerAddRequesterListStream L σ.stream.next rid = some σ') :
    σ'.Book nowhere nowhere (· = σ.stream.next) ∧ σ'.UnlockedBut (fun _ => False) ∧ σ'.respTable = σ.respTable ∧
      (∀ t k, σ'.respNames t k → if t = σ.stream.next then σ.responders (.list st) k else σ.respNames t k) ∧
      (∀ k, σ'.ownNames σ.stream.next k → σ'.ownTable k = some σ.stream.next) ∧
      Heap.Rel RemoteDSLink.Agree σ.link σ'.link ∧ ∃ st', σ'.stream.get σ.stream.next = some (.list st') := by
  have hb : τ.Book nowhere nowhere (· = σ.stream.next) := by
    rw [hτ]
    refine alloc_book h.book (fun _ _ hx => hx) (fun _ hf => hf.elim) rfl ?_ hresp ?_ (fun x _ _ _ hx => nomatch hx)
    · rintro k ⟨i, hi⟩
      simp [hempty] at hi
    · rintro x hx
      cases hx
      exact ⟨hnone, fun i => by simp [hempty]⟩
  have hself : τ.ownNames σ.stream.next (st.node, st.remotePath) := by
    rw [hτ, alloc_ownNames, if_pos rfl]
    exact ⟨st, rfl, rfl⟩
  have hbυ : u.Book nowhere nowhere (· = σ.stream.next) := by
    refine setOwner_book hb hc hstream hlink hlistener (htable.trans (by rw [hτ]; rfl)) hself (fun t ht => ?_)
    by_contra hts
    rw [hτ, alloc_ownNames, if_neg hts] at ht
    cases hnone.symm.trans (h.book.owner.filed ht (fun hf => hf))
  have huυ : u.UnlockedBut (fun _ => False) := by
    unfold UnlockedBut
    rw [hlink, hτ]
    exact h.unlocked
  have hreqυ : u.reqTable = σ.reqTable := by
    unfold reqTable
    rw [hlink, hτ]
  have hrespυ : u.respTable = σ.respTable := by
    unfold respTable
    rw [hlink, hτ]
  obtain ⟨hb', hu', hreqs⟩ := brokerAddRequesterListStream_book hbυ huυ (fun t ht => by
      rw [hreqυ, hfree] at ht
      cases ht) (fun link x dsId k hL hx hid hk => by
      rw [hstream, hτ] at hx
      have hx : (σ.stream.alloc (.list st)).get σ.stream.next = some (.list x) := hx
      rw [Heap.get_alloc_next] at hx
      cases hx
      simp [hempty] at hk) hs
  refine ⟨hb', hu', hreqs.respTable.trans hrespυ, ?_, ?_, ?_, hreqs.list⟩
  · intro t k hn
    have hnτ := respNames_mono hstream (fun d l hl => hc.openLink ▸ hl) t k (hreqs.respNames t k hn)
    rw [hτ] at hnτ
    exact alloc_names.mp hnτ
  · intro k hn
    obtain ⟨x, hx, hk⟩ := hreqs.ownNames _ k hn
    have hnτ : τ.ownNames σ.stream.next k := ⟨x, hstream ▸ hx, hk⟩
    rw [hτ, alloc_ownNames, if_pos rfl] at hnτ
    obtain ⟨x, hx, rfl⟩ := hnτ
    cases hx
    rw [hreqs.ownTable, htable, Function.update_self]
  · have hlinks := hreqs.links
    rw [hlink, hτ] at hlinks
    exact hlinks

theorem brokerListSelf_registered {n : NodeId} (h : σ.Registered) (hfree : σ.MayJoin L rid (σ.ownTable (.regular n, [])))
    (hs : σ.brokerListSelf L n rid = some σ') : σ'.Registered := by
  simp only [brokerListSelf, Option.bind_eq_bind, Option.bind_eq_some_iff] at hs
  obtain ⟨node, hn, hs⟩ := hs
  have hentry : σ.ownTable (.regular n, []) = node.listStream := by simp [ownTable, hn]
  rw [hentry] at hfree
  split at hs
  · rename_i s hlist
    exact joinStream_registered h (hlist ▸ hfree) hs
  · rename_i hlist
    rw [hlist] at hfree hentry
    set τ : Registry := { σ with stream := σ.stream.alloc (.list ⟨.regular n, [], 0, .empty⟩) } with hτ
    have hnτ : τ.node.get n = some node := hn
    have hno : ∀ k, ¬σ.responders (.list ⟨.regular n, [], 0, .empty⟩) k := by
      rintro k ⟨d, hd, -⟩
      cases hd
    obtain ⟨hb, hu, -, hnames, howner, -⟩ := openList_book (u := τ.modNode n (fun node =>
      { node with listStream := some σ.stream.next })) h rfl hentry hfree (fun k hk => absurd hk (hno k)) hτ
      (.of_rest rfl rfl (fun _ _ => rfl)) rfl rfl rfl (ownTable_regular hnτ (some σ.stream.next)) hs
    refine ⟨hb.settle (fun t k ht hn => ?_) (fun t k ht hn => ?_), hu⟩
    · have hk := hnames t k hn
      rw [if_pos ht] at hk
      exact absurd hk (hno k)
    · have ht : t = σ.stream.next := ht
      subst ht
      exact howner k hn

/-- `init_remote_list_stream` with a rid that is free on the link of the node, where it has one. -/
theorem initRemoteListStream_book {d : DownId} {node : DownstreamNode} {path : CString} {respRid : Nat} (h : σ.Registered)
    (hd : σ.dnode.get d = some node) (hnone : node.listStreams.get path = none) (hfree : σ.reqTable (L, rid) = none)
    (hresp : ∀ l, σ.openLink d = some l → σ.respTable (l, respRid) = none)
    (hs : σ.initRemoteListStream d path L rid respRid = some σ') :
    σ'.Book nowhere nowhere (· = σ.stream.next) ∧ σ'.UnlockedBut (fun _ => False) ∧ σ'.respTable = σ.respTable ∧
      (∀ t k, σ'.respNames t k → if t = σ.stream.next then σ.openLink d = some k.1 ∧ respRid = k.2 else σ.respNames t k) ∧
      (∀ k, σ'.ownNames σ.stream.next k → σ'.ownTable k = some σ.stream.next) ∧
      Heap.Rel RemoteDSLink.Agree σ.link σ'.link ∧ ∃ st', σ'.stream.get σ.stream.next = some (.list st') := by
  set τ : Registry := { σ with stream := σ.stream.alloc (.list ⟨.downstream d, path, respRid, .empty⟩) } with hτ
  have hdτ : τ.dnode.get d = some node := hd
  have hentry : σ.ownTable (.downstream d, path) = none := by simp [ownTable, hd, hnone]
  have hopen : ∀ k, σ.responders (.list ⟨.downstream d, path, respRid, .empty⟩) k →
      σ.openLink d = some k.1 ∧ respRid = k.2 := by
    rintro k ⟨e, he, hl, hr⟩
    cases he
    exact ⟨hl, hr⟩
  obtain ⟨hb, hu, hrt, hnames, hrest⟩ := openList_book (u := τ.modDnode d (fun node =>
      { node with listStreams := node.listStreams.set path σ.stream.next })) h rfl hentry hfree
    (fun k hk => by
      obtain ⟨hl, hr⟩ := hopen k hk
      rw [← hresp k.1 hl, hr]) hτ (closes_modDnode (fun _ => rfl)) rfl rfl rfl
    (ownTable_downstream hdτ (fun p => AssocMap.get_set ..)) hs
  refine ⟨hb, hu, hrt, fun t k hn => ?_, hrest⟩
  have hk := hnames t k hn
  split at hk
  · rename_i ht
    rw [if_pos ht]
    exact hopen k hk
  · rename_i ht
    rwa [if_neg ht]

/-- Where a request may be passed on: the rid that it gets is free on the link of the node. -/
def MayPassOn (σ : Registry) (d : DownId) : Prop :=
  ∀ node ∈ σ.dnode.get d, ∀ l ∈ node.link, σ.respTable (l, Broker.incrRid node.rid) = none

/-- Where a link may list a path of a node. -/
def MayListDslink (σ : Registry) (L : LinkId) (d : DownId) (path : CString) (rid : Nat) : Prop :=
  σ.MayJoin L rid (σ.ownTable (.downstream d, path)) ∧ (σ.ownTable (.downstream d, path) = none → σ.MayPassOn d)

theorem Registered.setRid {d : DownId} {r : Nat} (h : σ.Registered) :
    (σ.modDnode d (fun node => { node with rid := r })).Registered :=
  ⟨setRid_book h.book, h.unlocked⟩

/-- The node of an open link. -/
theorem openLink_of_link {d : DownId} {node : DownstreamNode} {l : LinkId} (h : σ.Registered)
    (hd : σ.dnode.get d = some node) (hl : node.link = some l) : σ.openLink d = some l := by
  obtain ⟨link, hlink, -⟩ := h.book.nodeLink d node l hd hl
  exact openLink_eq_some.mpr ⟨node, link, hd, hl, hlink, (h.unlocked l link hlink (fun hf => hf)).2⟩

theorem brokerListDslink_registered {d : DownId} {path : CString} (h : σ.Registered)
    (hfree : σ.MayListDslink L d path rid) (hs : σ.brokerListDslink L d path rid = some σ') : σ'.Registered := by
  simp only [brokerListDslink, Option.bind_eq_bind, Option.bind_eq_some_iff] at hs
  obtain ⟨node, hd, hs⟩ := hs
  obtain ⟨hjoin, hresp⟩ := hfree
  have hentry : σ.ownTable (.downstream d, path) = node.listStreams.get path := by simp [ownTable, hd]
  rw [hentry] at hjoin
  split at hs
  · rename_i s _ hlist
    exact joinStream_registered h (hlist ▸ hjoin) hs
  · rename_i l hlist hl
    simp only [Option.bind_eq_some_iff, Option.some.injEq] at hs
    obtain ⟨υ, hυ, rfl⟩ := hs
    rw [hlist] at hjoin hentry
    have hresp := hresp hentry
    set τ := σ.modDnode d (fun n => { n with rid := Broker.incrRid node.rid }) with hτ
    have hopen : ∀ e, τ.openLink e = σ.openLink e := by
      intro e
      have hc : Closes 0 σ τ := closes_modDnode (fun _ => rfl)
      rw [hc.openLink]
    have hdτ : τ.dnode.get d = some { node with rid := Broker.incrRid node.rid } := by simp [hτ, modDnode, hd]
    have hfreeτ : ∀ l', τ.openLink d = some l' → τ.respTable (l', Broker.incrRid node.rid) = none := by
      intro l' hl'
      rw [hopen, openLink_of_link h hd hl] at hl'
      cases hl'
      exact hresp node hd l hl
    obtain ⟨hb, hu, hrt, hnames, howner, hlinks, st, hst⟩ :=
      initRemoteListStream_book h.setRid hdτ hlist hjoin hfreeτ hυ
    have hnames : ∀ t k, υ.respNames t k → if t = σ.stream.next then
        τ.openLink d = some k.1 ∧ Broker.incrRid node.rid = k.2 else τ.respNames t k := hnames
    obtain ⟨link, hlink, -⟩ := h.book.nodeLink d node l hd hl
    obtain ⟨link', hlink', -⟩ := hlinks.get hlink
    -- the stream is answered on the rid of the request, and nobody else is
    have hnew : ∀ k, υ.respNames σ.stream.next k → k = (l, Broker.incrRid node.rid) := by
      intro k hn
      have hk := hnames _ k hn
      rw [if_pos rfl, hopen, openLink_of_link h hd hl] at hk
      exact Prod.ext (Option.some.inj hk.1).symm hk.2.symm
    have hb' : (υ.setResponder l (Broker.incrRid node.rid) (some σ.stream.next)).Book nowhere nowhere (· = σ.stream.next) := by
      refine setResponder_book hb hlink' (hb.responder.insert (fun _ _ _ hn => hn) (fun t ht => ?_)
        (fun _ _ _ hx _ => hx)) (fun _ ht => ht) ?_
      · by_contra hts
        have hk := hnames t _ ht
        rw [if_neg hts] at hk
        have hfiled := h.setRid.book.responder.filed hk (fun hf => hf)
        rw [hfreeτ l (by rw [hopen, openLink_of_link h hd hl])] at hfiled
        cases hfiled
      · rintro t ht
        cases ht
        refine ⟨Heap.lt_next_of_get hst, fun x hx => ?_⟩
        cases hst.symm.trans hx
    refine ⟨hb'.settle (fun t k ht hn => ?_) (fun t k ht hn => ?_), hu.modLink (fun _ => rfl) (fun _ => rfl)⟩
    · have ht : t = σ.stream.next := ht
      subst ht
      unfold setResponder at hn
      rw [respNames_modLink (fun _ => by rfl)] at hn
      rw [hnew k hn, respTable_set hlink', Function.update_self]
    · have ht : t = σ.stream.next := ht
      subst ht
      exact howner k hn
  · rename_i hlist hl
    rw [hlist] at hjoin
    have hno : ∀ l, σ.openLink d ≠ some l := by
      intro l hopen
      obtain ⟨node', -, hd', hl', -⟩ := openLink_eq_some.mp hopen
      cases hd.symm.trans hd'
      cases hl.symm.trans hl'
    obtain ⟨hb, hu, hrt, hnames, howner, -⟩ := initRemoteListStream_book h hd hlist hjoin
      (fun l hopen => absurd hopen (hno l)) hs
    refine ⟨hb.settle (fun t k ht hn => ?_) (fun t k ht hn => ?_), hu⟩
    · have hk := hnames t k hn
      rw [if_pos ht] at hk
      exact absurd hk.1 (hno _)
    · have ht : t = σ.stream.next := ht
      subst ht
      exact howner k hn

end Registry

end DSLink
