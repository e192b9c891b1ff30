import Mathlib.Logic.Function.Iterate
import DSLink.Broker.Invoked

/-!
# `Broker.Reconnected` — list streams of a node that gets a link again

A new link starts with empty tables. The list streams of its node are asked for again, each under the next rid of
the node, and are entered one after the other. Meanwhile the rids from the last connection mean nothing; here the
link counts as locked until the loop is done.

## Contents
- `iterate_incrRid`, the rids that a node gives out.
- `Reconnect`, the loop invariant, and `brokerDslinkConnect_registered`.
-/

namespace DSLink

namespace Registry

open CrossIndex

variable {σ σ' τ : Registry} {X E : StreamId → Key → Prop} {O : StreamId → Prop} {s : StreamId} {L : LinkId} {rid : Nat}

/-! ## The rids of a node -/

/-- The number of different rids that a node gives out before it starts over. -/
def ridPeriod : Nat := 2147483646

theorem incrRid_bounds (r : Nat) : 1 ≤ Broker.incrRid r ∧ Broker.incrRid r ≤ 2147483647 := by
  unfold Broker.incrRid
  split
  · omega
  · omega

theorem iterate_incrRid {r : Nat} (hlow : 1 ≤ r) (hhigh : r ≤ 2147483647) (j : Nat) (hj : j ≤ ridPeriod) :
    Broker.incrRid^[j] r = if r + j ≤ 2147483647 then r + j else r + j - ridPeriod := by
  unfold ridPeriod at *
  induction j with
  | zero => simp [hhigh]
  | succ j ih =>
    rw [Function.iterate_succ_apply', ih (by omega)]
    unfold Broker.incrRid
    split_ifs <;> omega

/-- Within one period all rids are different. -/
theorem iterate_incrRid_injective {r i j : Nat} (hi : i < ridPeriod) (hj : j < ridPeriod)
    (h : Broker.incrRid^[i + 1] r = Broker.incrRid^[j + 1] r) : i = j := by
  rw [Function.iterate_succ_apply, Function.iterate_succ_apply] at h
  obtain ⟨hlow, hhigh⟩ := incrRid_bounds r
  rw [iterate_incrRid hlow hhigh i (by omega), iterate_incrRid hlow hhigh j (by omega)] at h
  unfold ridPeriod at *
  split_ifs at h <;> omega

/-! ## The loop -/

/-- The link as it counts until all list streams are entered. -/
def lockResponder (σ : Registry) (L : LinkId) : Registry :=
  σ.modLink L (fun link => { link with responderLocked := true })

theorem openLink_lockResponder {d : DownId} {l : LinkId} (h : (σ.lockResponder L).openLink d = some l) :
    l ≠ L ∧ σ.openLink d = some l := by
  obtain ⟨node, link, hd, hl, hlink, hunlocked⟩ := openLink_eq_some.mp h
  have hlink : (σ.link.modify L _).get l = some link := hlink
  rw [Heap.get_modify] at hlink
  split at hlink
  · obtain ⟨link', -, rfl⟩ := Option.map_eq_some_iff.mp hlink
    cases hunlocked
  · rename_i hne
    exact ⟨hne, openLink_eq_some.mpr ⟨node, link, hd, hl, hlink, hunlocked⟩⟩

/-- In the loop over the list streams of the node, with those still to come. `k` are done. -/
structure Reconnect (L : LinkId) (d : DownId) (rid₀ : Nat) (streams : AssocMap CString StreamId) (k : Nat)
    (rest : List StreamId) (σ : Registry) : Prop where
  book : (σ.lockResponder L).Book nowhere nowhere (fun _ => False)
  unlocked : σ.UnlockedBut (fun _ => False)
  link : ∃ link, σ.link.get L = some link
  node : ∃ node, σ.dnode.get d = some node ∧ node.link = some L ∧ node.listStreams = streams ∧
    node.rid = Broker.incrRid^[k] rid₀
  count : k + rest.length = streams.size
  filed : ∀ r t, σ.respTable (L, r) = some t → (∃ i, i < k ∧ r = Broker.incrRid^[i + 1] rid₀) ∧
    ∃ st, σ.stream.get t = some (.list st)
  mem : ∀ t ∈ rest, t ∈ streams.values
  answered : ∀ t ∈ streams.values, t ∈ rest ∨
    ∀ st, σ.stream.get t = some (.list st) → σ.respTable (L, st.responderRid) = some t

theorem Reconnect.step {d : DownId} {rid₀ k : Nat} {streams : AssocMap CString StreamId} {rest : List StreamId}
    (h : Reconnect L d rid₀ streams k (s :: rest) σ) (hsize : streams.size ≤ ridPeriod)
    (hs : brokerStreamListConnect d σ s = some σ') : Reconnect L d rid₀ streams (k + 1) rest σ' := by
  obtain ⟨node, hd, hl, hstreams, hrid⟩ := h.node
  simp only [brokerStreamListConnect, hd, hl, Option.bind_eq_bind, Option.bind_some, Option.bind_eq_some_iff,
    Option.some.injEq] at hs
  obtain ⟨st, hlist, rfl⟩ := hs
  have hst : σ.stream.get s = some (.list st) := listStream_eq_some.mp hlist
  obtain ⟨link, hL⟩ := h.link
  set r := Broker.incrRid node.rid with hr
  have hr' : r = Broker.incrRid^[k + 1] rid₀ := by rw [hr, hrid, Function.iterate_succ_apply']
  set τ := σ.modDnode d (fun node => { node with rid := r }) with hτ
  set υ := τ.setStream s (.list { st with responderRid := r }) with hυ
  have hLυ : υ.link.get L = some link := hL
  have hget : ∀ t, υ.stream.get t = if t = s then some (.list { st with responderRid := r }) else σ.stream.get t :=
    get_setStream hst _
  have hrespV : (υ.lockResponder L).respTable = σ.respTable := respTable_same (fun _ => rfl)
  have hLV : (υ.lockResponder L).link.get L = some { link with responderLocked := true } := by
    simp [lockResponder, modLink, hLυ]
  -- the stream is one of the node, which is not open yet
  have hnode : st.node = .downstream d := by
    obtain ⟨p, hp⟩ := AssocMap.mem_values.mp (h.mem s List.mem_cons_self)
    have hentry : (σ.lockResponder L).ownTable (.downstream d, p) = some s := by
      show (σ.dnode.get d).bind _ = _
      rw [hd, Option.bind_some, hstreams, hp]
    rcases h.book.owned s _ hentry with ⟨x, hx, hk⟩ | ⟨-, hdead⟩
    · cases hst.symm.trans hx
      exact congrArg Prod.fst hk
    · cases hst.symm.trans hdead
  have hclosed : ∀ k, ¬((σ.lockResponder L).modDnode d (fun node => { node with rid := r })).responders
      (.list { st with responderRid := r }) k := by
    rintro k ⟨e, he, hopen, -⟩
    cases hnode.symm.trans he
    have hc : Closes 0 (σ.lockResponder L) ((σ.lockResponder L).modDnode d (fun node => { node with rid := r })) :=
      closes_modDnode (fun _ => rfl)
    rw [hc.openLink] at hopen
    obtain ⟨hne, hopen⟩ := openLink_lockResponder hopen
    obtain ⟨node', -, hd', hl', -⟩ := openLink_eq_some.mp hopen
    cases hd.symm.trans hd'
    exact hne (Option.some.inj (hl'.symm.trans hl))
  have hb : (υ.lockResponder L).Book nowhere nowhere (fun _ => False) := by
    have hb₀ := setRid_book (d := d) (r := r) h.book
    have hnames : (υ.lockResponder L).reqNames =
        ((σ.lockResponder L).modDnode d (fun node => { node with rid := r })).reqNames := by
      funext t k
      show (∃ x, υ.stream.get t = some x ∧ _) = (∃ x, σ.stream.get t = some x ∧ _)
      rw [hget]
      by_cases hts : t = s
      · subst hts
        simp [hst, BrokerStream.requesters]
      · rw [if_neg hts]
    exact setList_book hb₀ hst rfl (fun k hk => absurd hk (hclosed k)) (hnames ▸ hb₀.requester) (hnames ▸ hb₀.requested)
      (fun dsId k hk => hb₀.dsId s st dsId k hst hk)
  have hunused : ∀ t, ¬(υ.lockResponder L).respNames t (L, r) := by
    intro t ht
    obtain ⟨x, hx, -⟩ := respNames_locked hLV rfl ht
    have hfiled := hb.responder.filed ht (fun hf => hf)
    rw [hrespV] at hfiled
    obtain ⟨-, y, hy⟩ := h.filed r t hfiled
    have hx : υ.stream.get t = some (.invoke x) := hx
    rw [hget] at hx
    split at hx
    · cases hx
    · cases hx.symm.trans hy
  have htable : (υ.setResponder L r (some s)).respTable = Function.update σ.respTable (L, r) (some s) := respTable_set hLυ
  have hself : υ.stream.get s = some (.list { st with responderRid := r }) := by rw [hget, if_pos rfl]
  have hlt : k < ridPeriod := by
    have hcount := h.count
    rw [List.length_cons] at hcount
    omega
  refine ⟨?_, ?_, ?_, ?_, ?_, ?_, fun t ht => h.mem t (List.mem_cons_of_mem _ ht), ?_⟩
  · -- the tables, with the stream under its new rid
    have hcomm : (υ.setResponder L r (some s)).lockResponder L = (υ.lockResponder L).setResponder L r (some s) := by
      unfold setResponder lockResponder
      rw [modLink_comm (fun _ => by rfl)]
    rw [hcomm]
    refine setResponder_book hb hLV (hb.responder.insert (fun _ _ _ hn => hn) (fun t ht => absurd ht (hunused t))
      (fun _ _ _ hx _ => hx)) (fun _ ht => ht) ?_
    rintro t ht
    cases ht
    refine ⟨Heap.lt_next_of_get hself, fun x hx => ?_⟩
    cases hself.symm.trans hx
  · have hu : υ.UnlockedBut (fun _ => False) := h.unlocked
    exact hu.modLink (fun _ => rfl) (fun _ => rfl)
  · exact ⟨_, by
      show (υ.link.modify L _).get L = _
      rw [Heap.get_modify_self, hLυ, Option.map_some]⟩
  · refine ⟨{ node with rid := r }, ?_, hl, hstreams, hr'⟩
    show (σ.dnode.modify d _).get d = _
    rw [Heap.get_modify_self, hd, Option.map_some]
  · have hcount := h.count
    rw [List.length_cons] at hcount
    omega
  · -- every filed stream is one that has got its rid
    intro r' t ht
    rw [htable] at ht
    by_cases hrr : r' = r
    · rw [hrr, Function.update_self] at ht
      cases ht
      exact ⟨⟨k, Nat.lt_succ_self k, hrr.trans hr'⟩, _, hself⟩
    · rw [Function.update_of_ne (by simpa using hrr)] at ht
      obtain ⟨⟨i, hi, hri⟩, x, hx⟩ := h.filed r' t ht
      refine ⟨⟨i, Nat.lt_succ_of_lt hi, hri⟩, ?_⟩
      show ∃ x, υ.stream.get t = some (.list x)
      rw [hget]
      split
      · exact ⟨_, rfl⟩
      · exact ⟨x, hx⟩
  · -- every stream of the node is still to come or is answered under its rid
    intro t ht
    by_cases hts : t = s
    · subst hts
      refine .inr (fun x hx => ?_)
      cases hself.symm.trans hx
      rw [htable, Function.update_self]
    · refine (h.answered t ht).imp (fun hmem => (List.mem_cons.mp hmem).resolve_left hts) (fun hanswer x hx => ?_)
      have hx : υ.stream.get t = some (.list x) := hx
      rw [hget, if_neg hts] at hx
      have hentry := hanswer x hx
      rw [htable, Function.update_of_ne]
      · exact hentry
      · -- its rid was given out earlier in the loop
        intro heq
        obtain ⟨⟨i, hi, hri⟩, -⟩ := h.filed _ t hentry
        have hrx : x.responderRid = r := (Prod.mk.inj heq).2
        have hik := iterate_incrRid_injective (Nat.lt_trans hi hlt) hlt (hri.symm.trans (hrx.trans hr'))
        exact Nat.ne_of_lt hi hik

/-- The new link, with tables that are still empty. -/
theorem reconnect_start {d : DownId} {node : DownstreamNode} {dsId : Option CString} (h : σ.Registered)
    (hd : σ.dnode.get d = some node) (hl : node.link = none) :
    Reconnect σ.link.next d node.rid node.listStreams 0 node.listStreams.values
      (({ σ with link := σ.link.alloc ⟨dsId, d, .empty, .empty, false, false⟩ } : Registry).modDnode d
        (fun node => { node with link := some σ.link.next })) := by
  set L := σ.link.next with hLdef
  set τ : Registry := ({ σ with link := σ.link.alloc ⟨dsId, d, .empty, .empty, false, false⟩ } : Registry).modDnode d
    (fun node => { node with link := some L }) with hτ
  have hlink : ∀ l, τ.link.get l = if l = L then some ⟨dsId, d, .empty, .empty, false, false⟩ else σ.link.get l :=
    fun l => Heap.get_alloc ..
  have hV : ∀ l, (τ.lockResponder L).link.get l =
      if l = L then some ⟨dsId, d, .empty, .empty, false, true⟩ else σ.link.get l := by
    intro l
    show (τ.link.modify L _).get l = _
    rw [Heap.get_modify, hlink, hlink, if_pos rfl]
    split
    · rfl
    · rfl
  have hdnode : ∀ e node', τ.dnode.get e = some node' →
      e = d ∧ node' = { node with link := some L } ∨ e ≠ d ∧ σ.dnode.get e = some node' := by
    intro e node' he
    have he : (σ.dnode.modify d _).get e = some node' := he
    rw [Heap.get_modify] at he
    split at he
    · rename_i hed
      rw [hd] at he
      cases he
      exact .inl ⟨hed, rfl⟩
    · rename_i hed
      exact .inr ⟨hed, he⟩
  have hfresh : σ.link.get L = none := Heap.get_next _
  have hold : ∀ l link, σ.link.get l = some link → l ≠ L := fun l link hl => Heap.ne_next_of_get hl
  -- the new link has no entries, so the three tables are what they were
  have hreq : (τ.lockResponder L).reqTable = σ.reqTable := by
    funext k
    unfold reqTable
    rw [hV]
    split
    · rename_i hk
      rw [hk, hfresh]
      rfl
    · rfl
  have hresp : τ.respTable = σ.respTable := by
    funext k
    unfold respTable
    rw [hlink]
    split
    · rename_i hk
      rw [hk, hfresh]
      rfl
    · rfl
  have hrespV : (τ.lockResponder L).respTable = σ.respTable := by
    rw [← hresp]
    exact respTable_same (fun _ => rfl)
  have hown : (τ.lockResponder L).ownTable = σ.ownTable := by
    funext k
    obtain ⟨ref, p⟩ := k
    cases ref with
    | regular n => rfl
    | downstream e =>
      show ((σ.dnode.modify d _).get e).bind _ = (σ.dnode.get e).bind _
      rw [Heap.get_modify]
      split
      · rename_i he
        subst he
        cases σ.dnode.get e <;> rfl
      · rfl
  have hopen : ∀ e l, (τ.lockResponder L).openLink e = some l → σ.openLink e = some l := by
    intro e l he
    obtain ⟨hne, he⟩ := openLink_lockResponder he
    obtain ⟨node', link, he, hnl, hll, hunlocked⟩ := openLink_eq_some.mp he
    rw [hlink, if_neg hne] at hll
    rcases hdnode e node' he with ⟨-, rfl⟩ | ⟨-, he⟩
    · exact absurd (Option.some.inj hnl).symm hne
    · exact openLink_eq_some.mpr ⟨node', link, he, hnl, hll, hunlocked⟩
  refine ⟨⟨hreq ▸ h.book.requester, hreq ▸ h.book.requested, ?_, hown ▸ h.book.owner, hown ▸ h.book.owned,
    hrespV ▸ h.book.answered, ?_, ?_, ?_, h.book.listeners, h.book.entered⟩, ?_, ?_, ?_, ?_, ?_, fun _ ht => ht,
    fun _ ht => .inl ht⟩
  · rw [hrespV]
    exact h.book.responder.mono (respNames_mono rfl hopen) (fun _ _ _ hx _ => hx)
  · intro t st i k ht hk
    obtain ⟨link, hkl, hid⟩ := h.book.dsId t st i k ht hk
    exact ⟨link, by rw [hV, if_neg (hold _ _ hkl), hkl], hid⟩
  · -- the node and the link know each other
    intro e node' l he hnl
    rcases hdnode e node' he with ⟨rfl, rfl⟩ | ⟨-, he⟩
    · cases hnl
      exact ⟨_, by rw [hV, if_pos rfl], rfl⟩
    · obtain ⟨link, hll, hn⟩ := h.book.nodeLink e node' l he hnl
      exact ⟨link, by rw [hV, if_neg (hold _ _ hll), hll], hn⟩
  · intro l link hll
    rw [hV] at hll
    split at hll
    · rename_i hlL
      cases hll
      refine ⟨{ node with link := some L }, ?_, by rw [hlL]⟩
      show (σ.dnode.modify d _).get d = _
      rw [Heap.get_modify_self, hd, Option.map_some]
    · obtain ⟨node', he, hnl⟩ := h.book.linkNode l link hll
      refine ⟨node', ?_, hnl⟩
      show (σ.dnode.modify d _).get link.node = _
      rw [Heap.get_modify_ne, he]
      intro heq
      rw [heq] at he
      cases hd.symm.trans he
      cases hl.symm.trans hnl
  · intro l link hll _
    rw [hlink] at hll
    split at hll
    · cases hll
      exact ⟨rfl, rfl⟩
    · exact h.unlocked l link hll (fun hf => hf)
  · exact ⟨_, by rw [hlink, if_pos rfl]⟩
  · refine ⟨{ node with link := some L }, ?_, rfl, rfl, rfl⟩
    show (σ.dnode.modify d _).get d = _
    rw [Heap.get_modify_self, hd, Option.map_some]
  · simp [AssocMap.values, AssocMap.size]
  · intro r t ht
    rw [hresp, respTable, hfresh] at ht
    cases ht

/-- With all list streams entered, the link is open. -/
theorem Reconnect.finish {d : DownId} {rid₀ k : Nat} {streams : AssocMap CString StreamId}
    (h : Reconnect L d rid₀ streams k [] σ) : σ.Registered := by
  obtain ⟨node, hd, hl, hstreams, -⟩ := h.node
  have hreq : (σ.lockResponder L).reqTable = σ.reqTable := reqTable_same (fun _ => rfl)
  have hresp : (σ.lockResponder L).respTable = σ.respTable := respTable_same (fun _ => rfl)
  have hagree : Heap.Rel RemoteDSLink.Agree (σ.lockResponder L).link σ.link :=
    Heap.Rel.symm (fun a b hab => ⟨hab.1.symm, hab.2.symm⟩) (modLink_agree (fun _ => ⟨rfl, rfl⟩))
  refine ⟨h.book.of_links hagree (fun _ => rfl) rfl rfl (hreq ▸ h.book.requester) (hreq ▸ h.book.requested) ?_ h.book.owner
    h.book.owned (hresp ▸ h.book.answered), h.unlocked⟩
  rintro t ⟨l, r⟩ hn
  obtain ⟨x, hx, hk⟩ := hn
  cases x with
  | invoke x =>
    have hfiled := h.book.responder.filed (t := t) (k := (l, r)) ⟨.invoke x, hx, hk⟩ (fun hf => hf)
    exact .inl (hresp ▸ hfiled)
  | list x =>
    obtain ⟨e, he, hopen, hr⟩ := hk
    have hr : x.responderRid = r := hr
    obtain ⟨node', link, hd', hl', hll, hunlocked⟩ := openLink_eq_some.mp hopen
    have hll : σ.link.get l = some link := hll
    by_cases hlL : l = L
    · -- a list stream of the node itself
      subst hlL
      obtain ⟨link', hll', hn⟩ := h.book.nodeLink d node l hd hl
      obtain ⟨link'', hll'', hn'⟩ := h.book.nodeLink e node' l hd' hl'
      cases hll'.symm.trans hll''
      obtain rfl : e = d := hn'.symm.trans hn
      have hentry := h.book.owner.filed (t := t) (k := (.downstream e, x.remotePath)) ⟨x, hx, by rw [he]⟩ (fun hf => hf)
      have hentry : (σ.dnode.get e).bind _ = some t := hentry
      rw [hd, Option.bind_some, hstreams] at hentry
      have hanswer := (h.answered t (AssocMap.mem_values.mpr ⟨_, hentry⟩)).resolve_left (by simp)
      exact .inl (hr ▸ hanswer x hx)
    · have hopen' : (σ.lockResponder L).openLink e = some l := by
        refine openLink_eq_some.mpr ⟨node', link, hd', hl', ?_, hunlocked⟩
        show (σ.link.modify L _).get l = _
        rw [Heap.get_modify_ne hlL, hll]
      have hfiled := h.book.responder.filed (t := t) (k := (l, r)) ⟨.list x, hx, e, he, hopen', hr⟩ (fun hf => hf)
      exact .inl (hresp ▸ hfiled)

/-- A node may have as many list streams as it has rids. -/
def MayConnect (σ : Registry) (d : DownId) : Prop := ∀ node ∈ σ.dnode.get d, node.listStreams.size ≤ ridPeriod

theorem brokerDslinkConnect_registered {d : DownId} {node : DownstreamNode} {dsId : Option CString} (h : σ.Registered)
    (hd : σ.dnode.get d = some node) (hl : node.link = none) (hmay : σ.MayConnect d)
    (hs : σ.brokerDslinkConnect d dsId = some σ') : σ'.Registered := by
  simp only [brokerDslinkConnect, hd, Option.bind_eq_bind, Option.bind_some] at hs
  have hloop := foldlM_rest (fun rest τ => ∃ k, Reconnect σ.link.next d node.rid node.listStreams k rest τ)
    (fun τ t rest υ hi hυ => by
      obtain ⟨k, hi⟩ := hi
      exact ⟨k + 1, hi.step (hmay node hd) hυ⟩) hs ⟨0, reconnect_start h hd hl⟩
  obtain ⟨k, hk⟩ := hloop
  exact hk.finish

end Registry

end DSLink
