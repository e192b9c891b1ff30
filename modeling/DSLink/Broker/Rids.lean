import DSLink.Broker.Quiet

/-!
# `Broker.Rids` — the rids of the requests that the broker sends

`msg_list_remote.c`, `msg_invoke.c`, `subscription.c`, `msg_unsubscribe.c` and `msg_set.c` send requests to a
responder. All but a set request, which keeps the rid of the client, draw their rid from the counter of the node. A
`Wire` is the registry with the requests sent so far.

## Contents
- `Wire.step`: the registry's step with what it sends. `step_registry`: it is the registry's step.
- `Event.Apart`: the requests whose rids keep apart.
- `Inv`, `Inv.drawn` (one drawn request), `rids_apart`.
-/

namespace DSLink

open Registry

/-- How a request got its rid. A drawn one may open a stream. -/
inductive RidSource
  | forwarded
  | drawn (opens : Option StreamId)

namespace RidSource

def isDrawn : RidSource → Bool
  | .forwarded => false
  | .drawn _ => true

end RidSource

/-- A request that was sent to a responder. `taken`: its rid was a key of `responder_streams`, an invoke request's own
    entry apart. -/
structure SentRequest where
  link : LinkId
  rid : Nat
  source : RidSource
  taken : Bool

/-- `sent` has the latest request first; no function reads it. -/
structure Wire where
  registry : Registry
  sent : List SentRequest

/-- A set request is passed on to a node under the rid that its client gave it. -/
inductive WireEvent
  | registry (e : Registry.Event)
  | set (d : DownId) (rid : Nat)

namespace Wire

def send (w : Wire) (L : LinkId) (rid : Nat) (source : RidSource) : Wire :=
  { w with sent := ⟨L, rid, source,
      (w.registry.link.get L).any (fun link => (link.responderStreams.get rid).isSome)⟩ :: w.sent }

/-- A request of `d` with the next rid, where `d` has a link. -/
def sendDrawn (w : Wire) (d : DownId) (opens : Option StreamId) : Wire :=
  match (w.registry.dnode.get d).bind (fun node => node.link.map (fun l => (l, Broker.incrRid node.rid))) with
  | some (l, rid) => w.send l rid (.drawn opens)
  | none => w

/-- `broker_stream_list_connect`, which sends the list request. -/
def connectStream (d : DownId) (w : Wire) (s : StreamId) : Option Wire :=
  (brokerStreamListConnect d w.registry s).map (fun σ => { w.sendDrawn d (some s) with registry := σ })

/-- `broker_dslink_connect` with a new link. -/
def connect (w : Wire) (d : DownId) (dsId : Option CString) : Option Wire := do
  let node ← w.registry.dnode.get d
  let L := w.registry.link.next
  let σ : Registry := { w.registry with link := w.registry.link.alloc ⟨dsId, d, .empty, .empty, false, false⟩ }
  let σ := σ.modDnode d (fun node => { node with link := some L })
  node.listStreams.values.foldlM (connectStream d) { w with registry := σ }

/-- What an event sends before it enters a stream: a list request only for a path without a stream. -/
def sends (w : Wire) : Registry.Event → Wire
  | .takeRid d => w.sendDrawn d none
  | .listDslink _ d path _ =>
    if ((w.registry.dnode.get d).bind (fun node => node.listStreams.get path)).isSome then w
    else w.sendDrawn d (some w.registry.stream.next)
  | .invoke _ d _ => w.sendDrawn d (some w.registry.stream.next)
  | _ => w

def step (w : Wire) : WireEvent → Option Wire
  | .registry (.connect d dsId) => do
    let node ← w.registry.dnode.get d
    if node.link.isSome then none else w.connect d dsId
  | .registry e => (w.registry.step e).map (fun σ => { w.sends e with registry := σ })
  | .set d rid => do
    let node ← w.registry.dnode.get d
    match node.link with
    | some l => (w.registry.link.get l).map (fun _ => w.send l rid .forwarded)
    | none => some w

def init : Wire := ⟨.empty, []⟩

@[simp] theorem send_registry (w : Wire) (L : LinkId) (rid : Nat) (source : RidSource) :
    (w.send L rid source).registry = w.registry := rfl

theorem sendDrawn_eq {w : Wire} {d : DownId} {node : Registry.DownstreamNode} {l : LinkId}
    (hd : w.registry.dnode.get d = some node) (hl : node.link = some l) (opens : Option StreamId) :
    w.sendDrawn d opens = w.send l (Broker.incrRid node.rid) (.drawn opens) := by
  simp only [sendDrawn, hd, hl, Option.bind_some, Option.map_some]

@[simp] theorem sendDrawn_registry (w : Wire) (d : DownId) (opens : Option StreamId) :
    (w.sendDrawn d opens).registry = w.registry := by
  unfold sendDrawn
  split <;> rfl

/-- The rids that were drawn for a link, latest first. -/
def drawnFor (sent : List SentRequest) (L : LinkId) : List Nat :=
  (sent.filter (fun q => q.link = L && q.source.isDrawn)).map SentRequest.rid

/-- The rids that set requests were passed on with. -/
def forwardedTo (sent : List SentRequest) (L : LinkId) : List Nat :=
  (sent.filter (fun q => q.link = L && !q.source.isDrawn)).map SentRequest.rid

/-! ## The registry's step -/

theorem connectStream_registry {d : DownId} {w w' : Wire} {s : StreamId} (hs : w.connectStream d s = some w') :
    brokerStreamListConnect d w.registry s = some w'.registry := by
  obtain ⟨σ, hσ, rfl⟩ := Option.map_eq_some_iff.mp hs
  exact hσ

theorem connect_registry {d : DownId} {dsId : Option CString} {w w' : Wire} (hs : w.connect d dsId = some w') :
    w.registry.brokerDslinkConnect d dsId = some w'.registry := by
  simp only [connect, Option.bind_eq_bind, Option.bind_eq_some_iff] at hs
  obtain ⟨node, hd, hs⟩ := hs
  simp only [brokerDslinkConnect, hd, Option.bind_eq_bind, Option.bind_some]
  have hloop : ∀ (l : List StreamId) (v : Wire), l.foldlM (fun v s => v.connectStream d s) v = some w' →
      l.foldlM (brokerStreamListConnect d) v.registry = some w'.registry := by
    intro l
    induction l with
    | nil =>
      intro v hv
      cases hv
      rfl
    | cons s l ih =>
      intro v hv
      obtain ⟨u, hu, hv⟩ := Option.bind_eq_some_iff.mp hv
      rw [List.foldlM_cons, connectStream_registry hu]
      exact ih u hv
  exact hloop _ _ hs

/-- An event without a new link. -/
theorem step_eq {e : Registry.Event} (he : ∀ d dsId, e ≠ .connect d dsId) (w : Wire) :
    w.step (.registry e) = (w.registry.step e).map (fun σ => { w.sends e with registry := σ }) := by
  cases e with
  | connect d dsId => exact absurd rfl (he d dsId)
  | _ => rfl

/-- What is sent does not matter to the registry. -/
theorem step_registry {e : Registry.Event} {w w' : Wire} (hs : w.step (.registry e) = some w') :
    w.registry.step e = some w'.registry := by
  cases e with
  | connect d dsId =>
    simp only [step, Option.bind_eq_bind, Option.bind_eq_some_iff] at hs
    obtain ⟨node, hd, hs⟩ := hs
    simp only [Registry.step, hd, Option.bind_eq_bind, Option.bind_some]
    split at hs
    · cases hs
    · rename_i hl
      rw [if_neg hl]
      exact connect_registry hs
  | _ =>
    rw [step_eq (by simp)] at hs
    obtain ⟨σ, hσ, rfl⟩ := Option.map_eq_some_iff.mp hs
    exact hσ

/-! ## Rids of a counter -/

/-- The rids a counter at `r₀` gives out in `n` draws, latest first. -/
def ridsFrom (r₀ : Nat) : Nat → List Nat
  | 0 => []
  | n + 1 => Broker.incrRid^[n + 1] r₀ :: ridsFrom r₀ n

theorem length_ridsFrom (r₀ n : Nat) : (ridsFrom r₀ n).length = n := by
  induction n with
  | zero => rfl
  | succ n ih => rw [ridsFrom, List.length_cons, ih]

theorem mem_ridsFrom {r₀ n r : Nat} : r ∈ ridsFrom r₀ n ↔ ∃ i, i < n ∧ r = Broker.incrRid^[i + 1] r₀ := by
  induction n with
  | zero => simp [ridsFrom]
  | succ n ih =>
    rw [ridsFrom, List.mem_cons, ih]
    constructor
    · rintro (rfl | ⟨i, hi, rfl⟩)
      · exact ⟨n, Nat.lt_succ_self n, rfl⟩
      · exact ⟨i, Nat.lt_succ_of_lt hi, rfl⟩
    · rintro ⟨i, hi, rfl⟩
      rcases Nat.lt_succ_iff_lt_or_eq.mp hi with hi | rfl
      · exact .inr ⟨i, hi, rfl⟩
      · exact .inl rfl

/-- The next rid is a new one for a whole period. -/
theorem next_notMem_ridsFrom {r₀ n : Nat} (hn : n < ridPeriod) :
    Broker.incrRid (Broker.incrRid^[n] r₀) ∉ ridsFrom r₀ n := by
  rw [mem_ridsFrom, ← Function.iterate_succ_apply' Broker.incrRid]
  rintro ⟨i, hi, heq⟩
  have hni := iterate_incrRid_injective hn (Nat.lt_trans hi hn) heq
  omega

/-! ## The invariant -/

/-- What holds of the counters, the tables and the requests that were sent. -/
structure Inv (w : Wire) : Prop where
  counter : ∀ d node l, w.registry.dnode.get d = some node → node.link = some l → l < w.registry.link.next ∧
    ∃ r₀ n, drawnFor w.sent l = ridsFrom r₀ n ∧ node.rid = Broker.incrRid^[n] r₀
  single : ∀ d d' node node' l, w.registry.dnode.get d = some node → w.registry.dnode.get d' = some node' →
    node.link = some l → node'.link = some l → d = d'
  old : ∀ q ∈ w.sent, q.link < w.registry.link.next
  entry : ∀ l link r x, w.registry.link.get l = some link → link.responderStreams.get r = some x →
    r ∈ drawnFor w.sent l ∧ ∀ q ∈ w.sent, q.link = l → q.rid = r → ∀ s, x = some s → q.source = .drawn (some s)
  untaken : ∀ q ∈ w.sent, q.taken = false

theorem mem_drawnFor {sent : List SentRequest} {L : LinkId} {r : Nat} :
    r ∈ drawnFor sent L ↔ ∃ q ∈ sent, q.link = L ∧ q.source.isDrawn = true ∧ q.rid = r := by
  simp [drawnFor, and_assoc]

theorem mem_forwardedTo {sent : List SentRequest} {L : LinkId} {r : Nat} :
    r ∈ forwardedTo sent L ↔ ∃ q ∈ sent, q.link = L ∧ q.source.isDrawn = false ∧ q.rid = r := by
  simp [forwardedTo, and_assoc]

variable {w w' : Wire} {σ' : Registry} {d : DownId} {opens : Option StreamId}

theorem Inv.quiet (h : w.Inv) (hq : Quiet w.registry σ') : Inv { w with registry := σ' } where
  counter := by
    intro e node' l he hl
    rcases hq.dnode e node' he with hnone | ⟨node, hnode, hlink, hrid⟩
    · rw [hnone] at hl
      cases hl
    · obtain ⟨hlt, r₀, n, hdrawn, hr⟩ := h.counter e node l hnode (hlink ▸ hl)
      exact ⟨hq.next ▸ hlt, r₀, n, hdrawn, hrid.trans hr⟩
  single := by
    intro e e' node' node'' l he he' hl hl'
    rcases hq.dnode e node' he with hnone | ⟨node, hnode, hlink, -⟩
    · rw [hnone] at hl
      cases hl
    · rcases hq.dnode e' node'' he' with hnone | ⟨node₂, hnode₂, hlink₂, -⟩
      · rw [hnone] at hl'
        cases hl'
      · exact h.single e e' node node₂ l hnode hnode₂ (hlink ▸ hl) (hlink₂ ▸ hl')
  old q hmem := hq.next ▸ h.old q hmem
  entry := by
    intro l link' r x hl hx
    obtain ⟨link, hlink, hentry⟩ := hq.table l link' (fun hf => hf) hl
    exact h.entry l link r x hlink (hentry r x hx)
  untaken := h.untaken

/-- The counter of `d` moves on, and the only new entry is the stream `opens` under the rid at the link of `d`. -/
structure Draws (d : DownId) (opens : Option StreamId) (σ σ' : Registry) : Prop where
  next : σ'.link.next = σ.link.next
  table : ∀ l link', σ'.link.get l = some link' → ∃ link, σ.link.get l = some link ∧
    ∀ r x, link'.responderStreams.get r = some x → link.responderStreams.get r = some x ∨
      ∃ node s, σ.dnode.get d = some node ∧ node.link = some l ∧ r = Broker.incrRid node.rid ∧ opens = some s ∧ x = some s
  dnode : ∀ e node', σ'.dnode.get e = some node' → node'.link = none ∨ ∃ node, σ.dnode.get e = some node ∧
    node'.link = node.link ∧ node'.rid = if e = d then Broker.incrRid node.rid else node.rid

/-- Fewer rids were drawn for the link of the node than its counter has. -/
def MayDraw (w : Wire) (d : DownId) : Prop :=
  ∀ node ∈ w.registry.dnode.get d, ∀ l ∈ node.link, (drawnFor w.sent l).length < ridPeriod

/-- No set request was passed on to the link of the node with the rid that its counter gives next. -/
def NotForwarded (w : Wire) (d : DownId) : Prop :=
  ∀ node ∈ w.registry.dnode.get d, ∀ l ∈ node.link, Broker.incrRid node.rid ∉ forwardedTo w.sent l

/-- A node without a link sends nothing. -/
theorem Inv.unlinked (h : w.Inv) (hd : Draws d opens w.registry σ')
    (hl : ∀ node, w.registry.dnode.get d = some node → node.link = none) : Inv { w with registry := σ' } := by
  refine h.quiet ⟨hd.next, fun l link' _ hlink => ?_, fun e node' he => ?_⟩
  · obtain ⟨link, hlink, hentry⟩ := hd.table l link' hlink
    refine ⟨link, hlink, fun r x hx => (hentry r x hx).resolve_right ?_⟩
    rintro ⟨node, s, hnode, hnl, -⟩
    rw [hl node hnode] at hnl
    cases hnl
  · rcases hd.dnode e node' he with hnone | ⟨node, hnode, hlink, hrid⟩
    · exact .inl hnone
    · by_cases hed : e = d
      · subst hed
        exact .inl (hlink.trans (hl node hnode))
      · rw [if_neg hed] at hrid
        exact .inr ⟨node, hnode, hlink, hrid⟩

/-- A drawn request. -/
theorem Inv.drawn (h : w.Inv) (hd : Draws d opens w.registry σ') (hroom : w.MayDraw d)
    (hforward : opens ≠ none → w.NotForwarded d) : Inv { w.sendDrawn d opens with registry := σ' } := by
  unfold sendDrawn
  cases hnode : w.registry.dnode.get d with
  | none => exact h.unlinked hd (fun node hn => by rw [hnode] at hn; cases hn)
  | some node =>
    cases hl : node.link with
    | none =>
      rw [Option.bind_some, hl]
      exact h.unlinked hd (fun m hm => by rw [hnode] at hm; cases hm; exact hl)
    | some l =>
      rw [Option.bind_some, hl]
      show Inv { w.send l (Broker.incrRid node.rid) (.drawn opens) with registry := σ' }
      obtain ⟨hlt, r₀, n, hdrawn, hrid⟩ := h.counter d node l hnode hl
      have hn : n < ridPeriod := by
        have hlen := hroom node hnode l hl
        rwa [hdrawn, length_ridsFrom] at hlen
      set r := Broker.incrRid node.rid with hr
      -- nothing drawn for this link has the rid
      have hfresh : r ∉ drawnFor w.sent l := by
        rw [hdrawn, hr, hrid]
        exact next_notMem_ridsFrom hn
      have htaken : (w.registry.link.get l).any (fun link => (link.responderStreams.get r).isSome) = false := by
        cases hlink : w.registry.link.get l with
        | none => rfl
        | some link =>
          cases hx : link.responderStreams.get r with
          | none => simp [hx]
          | some x => exact absurd (h.entry l link r x hlink hx).1 hfresh
      rw [send, htaken]
      have hself : drawnFor (⟨l, r, .drawn opens, false⟩ :: w.sent) l = r :: drawnFor w.sent l := by
        simp [drawnFor, RidSource.isDrawn]
      have hother : ∀ l', l ≠ l' → drawnFor (⟨l, r, .drawn opens, false⟩ :: w.sent) l' = drawnFor w.sent l' := by
        intro l' hne
        simp [drawnFor, hne]
      have hmem : ∀ l' r', r' ∈ drawnFor w.sent l' → r' ∈ drawnFor (⟨l, r, .drawn opens, false⟩ :: w.sent) l' := by
        intro l' r' hr'
        obtain ⟨q, hq, hrest⟩ := mem_drawnFor.mp hr'
        exact mem_drawnFor.mpr ⟨q, List.mem_cons_of_mem _ hq, hrest⟩
      refine ⟨?_, ?_, ?_, ?_, ?_⟩
      · intro e node' l' he hl'
        rcases hd.dnode e node' he with hnone | ⟨m, hm, hlink, hrid'⟩
        · rw [hnone] at hl'
          cases hl'
        · have hml : m.link = some l' := hlink ▸ hl'
          obtain ⟨hlt', r₁, n₁, hdrawn₁, hr₁⟩ := h.counter e m l' hm hml
          refine ⟨hd.next ▸ hlt', ?_⟩
          by_cases hed : e = d
          · subst hed
            cases hnode.symm.trans hm
            cases hl.symm.trans hml
            refine ⟨r₀, n + 1, ?_, ?_⟩
            · show drawnFor (_ :: w.sent) l = _
              rw [hself, hdrawn, hr, hrid, ridsFrom, Function.iterate_succ_apply']
            · rw [hrid', if_pos rfl, hrid, Function.iterate_succ_apply']
          · have hne : l ≠ l' := by
              rintro rfl
              exact hed (h.single e d m node l hm hnode hml hl)
            refine ⟨r₁, n₁, (hother l' hne).trans hdrawn₁, ?_⟩
            rw [hrid', if_neg hed, hr₁]
      · intro e e' m m' l' he he' hml hml'
        rcases hd.dnode e m he with hnone | ⟨k, hk, hlink, -⟩
        · rw [hnone] at hml
          cases hml
        · rcases hd.dnode e' m' he' with hnone | ⟨k', hk', hlink', -⟩
          · rw [hnone] at hml'
            cases hml'
          · exact h.single e e' k k' l' hk hk' (hlink ▸ hml) (hlink' ▸ hml')
      · intro q hq
        rcases List.mem_cons.mp hq with rfl | hq
        · exact hd.next ▸ hlt
        · exact hd.next ▸ h.old q hq
      · intro l' link' r' x hlink' hx
        obtain ⟨link, hlink, hentry⟩ := hd.table l' link' hlink'
        rcases hentry r' x hx with hx | ⟨m, s, hm, hml, rfl, rfl, rfl⟩
        · obtain ⟨hmemr, hall⟩ := h.entry l' link r' x hlink hx
          refine ⟨hmem l' r' hmemr, fun q hq hql hqr s hs => ?_⟩
          rcases List.mem_cons.mp hq with rfl | hq
          · cases hql
            cases hqr
            exact absurd hmemr hfresh
          · exact hall q hq hql hqr s hs
        · cases hnode.symm.trans hm
          cases hl.symm.trans hml
          refine ⟨?_, fun q hq hql hqr s' hs' => ?_⟩
          · show r ∈ drawnFor (_ :: w.sent) l
            rw [hself]
            exact List.mem_cons_self
          · cases hs'
            rcases List.mem_cons.mp hq with rfl | hq
            · rfl
            · -- an older request with this rid would be drawn or passed on with it
              cases hdrawnq : q.source.isDrawn with
              | true => exact absurd (mem_drawnFor.mpr ⟨q, hq, hql, hdrawnq, hqr⟩) hfresh
              | false =>
                exact absurd (mem_forwardedTo.mpr ⟨q, hq, hql, hdrawnq, hqr⟩)
                  (hforward (by simp) node hnode l hl)
      · intro q hq
        rcases List.mem_cons.mp hq with rfl | hq
        · rfl
        · exact h.untaken q hq

/-! ## The events -/

theorem draws_setRid (σ : Registry) {node : Registry.DownstreamNode} (hd : σ.dnode.get d = some node) (opens : Option StreamId) :
    Draws d opens σ (σ.modDnode d (fun n => { n with rid := Broker.incrRid node.rid })) := by
  refine ⟨rfl, fun l link hl => ⟨link, hl, fun r x hx => .inl hx⟩, fun e node' he => .inr ?_⟩
  replace he : (σ.dnode.modify d _).get e = some node' := he
  rw [Heap.get_modify] at he
  split at he
  · rename_i hed
    subst hed
    obtain ⟨m, hm, rfl⟩ := Option.map_eq_some_iff.mp he
    cases hd.symm.trans hm
    exact ⟨node, hd, rfl, by rw [if_pos rfl]⟩
  · rename_i hed
    exact ⟨node', he, rfl, by rw [if_neg hed]⟩

theorem Draws.quiet {σ τ : Registry} (h : Draws d opens σ τ) (hq : Quiet τ σ') : Draws d opens σ σ' := by
  refine ⟨hq.next.trans h.next, fun l link' hl => ?_, fun e node' he => ?_⟩
  · obtain ⟨m, hm, hentry⟩ := hq.table l link' (fun hf => hf) hl
    obtain ⟨link, hlink, hentry'⟩ := h.table l m hm
    exact ⟨link, hlink, fun r x hx => hentry' r x (hentry r x hx)⟩
  · rcases hq.dnode e node' he with hnone | ⟨m, hm, hlink, hrid⟩
    · exact .inl hnone
    · rcases h.dnode e m hm with hnone | ⟨node, hnode, hlink', hrid'⟩
      · exact .inl (hlink.trans hnone)
      · exact .inr ⟨node, hnode, hlink.trans hlink', hrid.trans hrid'⟩

/-- The stream is entered. -/
theorem Draws.enter {σ τ : Registry} {s : StreamId} {l : LinkId} {node : Registry.DownstreamNode} (h : Draws d (some s) σ τ)
    (hd : σ.dnode.get d = some node) (hl : node.link = some l) :
    Draws d (some s) σ (τ.setResponder l (Broker.incrRid node.rid) (some s)) := by
  refine ⟨h.next, fun l' link' hl' => ?_, h.dnode⟩
  replace hl' : (τ.link.modify l _).get l' = some link' := hl'
  rw [Heap.get_modify] at hl'
  split at hl'
  · rename_i hll
    subst hll
    obtain ⟨m, hm, rfl⟩ := Option.map_eq_some_iff.mp hl'
    obtain ⟨link, hlink, hentry⟩ := h.table l' m hm
    refine ⟨link, hlink, fun r x hx => ?_⟩
    rw [AssocMap.get_set] at hx
    split at hx
    · rename_i hr
      exact .inr ⟨node, s, hd, hl, hr, rfl, (Option.some.inj hx).symm⟩
    · exact hentry r x hx
  · exact h.table l' link' hl'

theorem draws_connectStream {σ : Registry} {s : StreamId} (hs : brokerStreamListConnect d σ s = some σ') :
    ∃ node, σ.dnode.get d = some node ∧ Draws d (some s) σ σ' := by
  simp only [brokerStreamListConnect, Option.bind_eq_bind, Option.bind_eq_some_iff, Option.some.injEq] at hs
  obtain ⟨node, hd, L, hL, st, -, rfl⟩ := hs
  have hrid := draws_setRid σ hd (some s)
  refine ⟨node, hd, Draws.enter (hrid.quiet ?_) hd hL⟩
  exact .of_rest rfl rfl

/-- The node keeps its link. -/
theorem connectStream_node {σ : Registry} {s : StreamId} {node : Registry.DownstreamNode}
    (hs : brokerStreamListConnect d σ s = some σ') (hd : σ.dnode.get d = some node) :
    ∃ node', σ'.dnode.get d = some node' ∧ node'.link = node.link := by
  simp only [brokerStreamListConnect, hd, Option.bind_eq_bind, Option.bind_some, Option.bind_eq_some_iff,
    Option.some.injEq] at hs
  obtain ⟨L, -, st, -, rfl⟩ := hs
  refine ⟨{ node with rid := Broker.incrRid node.rid }, ?_, rfl⟩
  show (σ.dnode.modify d _).get d = _
  rw [Heap.get_modify, if_pos rfl, hd]
  rfl

theorem draws_takeRid {σ : Registry} (hs : σ.step (.takeRid d) = some σ') : Draws d none σ σ' := by
  obtain ⟨node, hd, rfl⟩ := Option.map_eq_some_iff.mp hs
  exact draws_setRid σ hd none

theorem draws_invoke {σ : Registry} {L : LinkId} {rid : Nat} (hs : σ.brokerMsgHandleInvoke L d rid = some σ') :
    Draws d (some σ.stream.next) σ σ' := by
  simp only [brokerMsgHandleInvoke, Option.bind_eq_bind, Option.bind_eq_some_iff] at hs
  obtain ⟨node, hd, hs⟩ := hs
  have hrid := draws_setRid σ hd (some σ.stream.next)
  split at hs
  · cases hs
    exact hrid
  · rename_i l hl
    simp only [Option.bind_eq_some_iff, Option.some.injEq] at hs
    obtain ⟨-, -, ⟨τ, old⟩, hτ, υ, hυ, rfl⟩ := hs
    refine (((Draws.enter (hrid.quiet ?_) hd hl).quiet (takeRequester_quiet hτ)).quiet (closeOld_quiet hυ)).quiet
      (setRequester_quiet _)
    exact .of_rest rfl rfl

theorem draws_listDslink {σ : Registry} {L : LinkId} {path : CString} {rid : Nat}
    (hs : σ.brokerListDslink L d path rid = some σ') : ∃ node, σ.dnode.get d = some node ∧
      ((node.listStreams.get path).isSome = true ∧ Quiet σ σ' ∨
        node.listStreams.get path = none ∧ node.link = none ∧ Quiet σ σ' ∨
        node.listStreams.get path = none ∧ Draws d (some σ.stream.next) σ σ') := by
  simp only [brokerListDslink, Option.bind_eq_bind, Option.bind_eq_some_iff] at hs
  obtain ⟨node, hd, hs⟩ := hs
  refine ⟨node, hd, ?_⟩
  split at hs
  · rename_i s hpath
    exact .inl ⟨by rw [hpath]; rfl, brokerAddRequesterListStream_quiet hs⟩
  · rename_i l hpath hl
    simp only [Option.bind_eq_some_iff, Option.some.injEq] at hs
    obtain ⟨τ, hτ, rfl⟩ := hs
    have hrid := draws_setRid σ hd (some σ.stream.next)
    exact .inr (.inr ⟨hpath, Draws.enter (hrid.quiet (initRemoteListStream_quiet hτ)) hd hl⟩)
  · rename_i hpath hl
    exact .inr (.inl ⟨hpath, hl, initRemoteListStream_quiet hs⟩)

/-- A node that gets a link asks for all its list streams again. -/
theorem Inv.connect (h : w.Inv) {node : Registry.DownstreamNode} (hd : w.registry.dnode.get d = some node)
    (hsize : node.listStreams.size ≤ ridPeriod) {dsId : Option CString} (hs : w.connect d dsId = some w') : w'.Inv := by
  simp only [Wire.connect, hd, Option.bind_eq_bind, Option.bind_some] at hs
  set L := w.registry.link.next with hL
  set σ₀ : Registry := ({ w.registry with
    link := w.registry.link.alloc ⟨dsId, d, .empty, .empty, false, false⟩ } : Registry).modDnode d
      (fun node => { node with link := some L }) with hσ₀
  have hnode₀ : ∀ e m, σ₀.dnode.get e = some m → ∃ k, w.registry.dnode.get e = some k ∧ m.rid = k.rid ∧
      (e = d ∧ m.link = some L ∨ e ≠ d ∧ m.link = k.link) := by
    intro e m he
    replace he : (w.registry.dnode.modify d _).get e = some m := he
    rw [Heap.get_modify] at he
    split at he
    · rename_i hed
      obtain ⟨k, hk, rfl⟩ := Option.map_eq_some_iff.mp he
      exact ⟨k, hed ▸ hk, rfl, .inl ⟨hed, rfl⟩⟩
    · rename_i hed
      exact ⟨m, he, rfl, .inr ⟨hed, rfl⟩⟩
  have hnone : ∀ q ∈ w.sent, q.link ≠ L := fun q hq hqL => absurd (h.old q hq) (by rw [hqL]; exact Nat.lt_irrefl _)
  have hstart : Inv { w with registry := σ₀ } := by
    refine ⟨?_, ?_, ?_, ?_, h.untaken⟩
    · intro e m l he hl
      obtain ⟨k, hk, hrid, ⟨-, hlink⟩ | ⟨-, hlink⟩⟩ := hnode₀ e m he
      · cases hlink.symm.trans hl
        refine ⟨Nat.lt_succ_self _, m.rid, 0, ?_, rfl⟩
        simp only [drawnFor, ridsFrom, List.map_eq_nil_iff, List.filter_eq_nil_iff]
        intro q hq
        simp [hnone q hq]
      · obtain ⟨hlt, r₀, n, hdrawn, hr⟩ := h.counter e k l hk (hlink ▸ hl)
        exact ⟨Nat.lt_succ_of_lt hlt, r₀, n, hdrawn, hrid.trans hr⟩
    · intro e e' m m' l he he' hl hl'
      obtain ⟨k, hk, -, hcase⟩ := hnode₀ e m he
      obtain ⟨k', hk', -, hcase'⟩ := hnode₀ e' m' he'
      rcases hcase with ⟨rfl, hlink⟩ | ⟨hne, hlink⟩ <;> rcases hcase' with ⟨rfl, hlink'⟩ | ⟨hne', hlink'⟩
      · rfl
      · cases hlink.symm.trans hl
        exact absurd (h.counter e' k' L hk' (hlink' ▸ hl')).1 (Nat.lt_irrefl _)
      · cases hlink'.symm.trans hl'
        exact absurd (h.counter e k L hk (hlink ▸ hl)).1 (Nat.lt_irrefl _)
      · exact h.single e e' k k' l hk hk' (hlink ▸ hl) (hlink' ▸ hl')
    · exact fun q hq => Nat.lt_succ_of_lt (h.old q hq)
    · intro l link r x hl hx
      replace hl : (w.registry.link.alloc ⟨dsId, d, .empty, .empty, false, false⟩).get l = some link := hl
      rw [Heap.get_alloc] at hl
      split at hl
      · cases hl
        cases hx
      · exact h.entry l link r x hl hx
  have hloop := foldlM_rest (fun rest (v : Wire) => v.Inv ∧
      (∃ m, v.registry.dnode.get d = some m ∧ m.link = some L) ∧
      (drawnFor v.sent L).length + rest.length ≤ ridPeriod ∧ forwardedTo v.sent L = [])
    (fun v s rest v' hinv hround => ?_) hs ⟨hstart, ⟨{ node with link := some L }, ?_, rfl⟩, ?_, ?_⟩
  · exact hloop.1
  · obtain ⟨hinv, ⟨m, hm, hml⟩, hlen, hforward⟩ := hinv
    obtain ⟨σ₁, hσ₁, rfl⟩ := Option.map_eq_some_iff.mp hround
    obtain ⟨m', hm', hdraws⟩ := draws_connectStream hσ₁
    cases hm.symm.trans hm'
    have hroom : v.MayDraw d := by
      intro k hk l hl
      cases hm.symm.trans hk
      cases hml.symm.trans hl
      rw [List.length_cons] at hlen
      omega
    have hforwarded : v.NotForwarded d := by
      intro k hk l hl
      cases hm.symm.trans hk
      cases hml.symm.trans hl
      rw [hforward]
      exact List.not_mem_nil
    refine ⟨hinv.drawn hdraws hroom (fun _ => hforwarded), ?_, ?_, ?_⟩
    · obtain ⟨m₁, hm₁, hlink₁⟩ := connectStream_node hσ₁ hm
      exact ⟨m₁, hm₁, hlink₁.trans hml⟩
    · rw [sendDrawn_eq hm hml]
      have hcons : (drawnFor (v.send L (Broker.incrRid m.rid) (.drawn (some s))).sent L).length =
          (drawnFor v.sent L).length + 1 := by simp [drawnFor, send, RidSource.isDrawn]
      rw [List.length_cons] at hlen
      show (drawnFor (v.send L (Broker.incrRid m.rid) (.drawn (some s))).sent L).length + rest.length ≤ ridPeriod
      omega
    · rw [sendDrawn_eq hm hml]
      simpa [forwardedTo, send, RidSource.isDrawn] using hforward
  · show (w.registry.dnode.modify d _).get d = _
    rw [Heap.get_modify, if_pos rfl, hd]
    rfl
  · have hnil : drawnFor w.sent L = [] := by
      simp only [drawnFor, List.map_eq_nil_iff, List.filter_eq_nil_iff]
      intro q hq
      simp [hnone q hq]
    show (drawnFor w.sent L).length + _ ≤ _
    rw [hnil, List.length_nil, AssocMap.values, List.length_map, Nat.zero_add]
    exact hsize
  · simp only [forwardedTo, List.map_eq_nil_iff, List.filter_eq_nil_iff]
    intro q hq
    simp [hnone q hq]

/-- A set request whose rid is no key at the responder. -/
theorem Inv.forwarded (h : w.Inv) {l : LinkId} {rid : Nat} (hl : l < w.registry.link.next)
    (hfree : ∀ link ∈ w.registry.link.get l, link.responderStreams.get rid = none) :
    (w.send l rid .forwarded).Inv := by
  have htaken : (w.registry.link.get l).any (fun link => (link.responderStreams.get rid).isSome) = false := by
    cases hlink : w.registry.link.get l with
    | none => rfl
    | some link => simp [hfree link hlink]
  rw [send, htaken]
  have hdrawn : ∀ l', drawnFor (⟨l, rid, .forwarded, false⟩ :: w.sent) l' = drawnFor w.sent l' := by
    intro l'
    simp [drawnFor, RidSource.isDrawn]
  refine ⟨?_, h.single, ?_, ?_, ?_⟩
  · intro d node l' hd hl'
    obtain ⟨hlt, r₀, n, heq, hrid⟩ := h.counter d node l' hd hl'
    exact ⟨hlt, r₀, n, (hdrawn l').trans heq, hrid⟩
  · intro q hq
    rcases List.mem_cons.mp hq with rfl | hq
    · exact hl
    · exact h.old q hq
  · intro l' link r x hlink hx
    obtain ⟨hmem, hall⟩ := h.entry l' link r x hlink hx
    refine ⟨by rw [hdrawn]; exact hmem, fun q hq hql hqr => ?_⟩
    rcases List.mem_cons.mp hq with rfl | hq
    · cases hql
      cases hqr
      rw [hfree link hlink] at hx
      cases hx
    · exact hall q hq hql hqr
  · intro q hq
    rcases List.mem_cons.mp hq with rfl | hq
    · rfl
    · exact h.untaken q hq

end Wire

/-- The request's rid keeps apart from the others of its link: the counter has not come round on this link, the rid of
    a request that opens a stream was not used by a set request, and the rid of a set request is not the one of an open
    stream. -/
def WireEvent.Apart (w : Wire) : WireEvent → Prop
  | .set d rid => ∀ node ∈ w.registry.dnode.get d, ∀ l ∈ node.link, ∀ link ∈ w.registry.link.get l,
      link.responderStreams.get rid = none
  | .registry (.takeRid d) => w.MayDraw d
  | .registry (.connect d _) => w.registry.MayConnect d
  | .registry (.listDslink _ d path _) => ∀ node ∈ w.registry.dnode.get d, node.listStreams.get path = none →
      w.MayDraw d ∧ w.NotForwarded d
  | .registry (.invoke _ d _) => w.MayDraw d ∧ w.NotForwarded d
  | _ => True

namespace Wire

variable {w w' : Wire}

/-- An event that draws no rid. -/
theorem Inv.other (h : w.Inv) {e : Registry.Event} (he : e.draws = false) (hs : w.step (.registry e) = some w') :
    w'.Inv := by
  rw [step_eq (by rintro d dsId rfl; cases he)] at hs
  obtain ⟨σ, hσ, rfl⟩ := Option.map_eq_some_iff.mp hs
  have hsends : w.sends e = w := by
    cases e <;> first | rfl | cases he
  rw [hsends]
  exact h.quiet (step_quiet he hσ)

/-- One event. -/
theorem Inv.step (h : w.Inv) {e : WireEvent} (hapart : e.Apart w) (hs : w.step e = some w') : w'.Inv := by
  cases e with
  | set d rid =>
    simp only [Wire.step, Option.bind_eq_bind, Option.bind_eq_some_iff] at hs
    obtain ⟨node, hd, hs⟩ := hs
    split at hs
    · rename_i l hl
      obtain ⟨link, hlink, rfl⟩ := Option.map_eq_some_iff.mp hs
      exact h.forwarded (h.counter d node l hd hl).1 (hapart node hd l hl)
    · cases hs
      exact h
  | registry e =>
    cases hdraws : e.draws with
    | false => exact h.other hdraws hs
    | true =>
      cases e with
      | takeRid d =>
        obtain ⟨σ, hσ, rfl⟩ := Option.map_eq_some_iff.mp hs
        exact h.drawn (draws_takeRid hσ) hapart (fun hne => absurd rfl hne)
      | connect d dsId =>
        simp only [Wire.step, Option.bind_eq_bind, Option.bind_eq_some_iff] at hs
        obtain ⟨node, hd, hs⟩ := hs
        split at hs
        · cases hs
        · exact h.connect hd (hapart node hd) hs
      | listDslink L d path rid =>
        obtain ⟨σ, hσ, rfl⟩ := Option.map_eq_some_iff.mp hs
        obtain ⟨-, -, hσ⟩ := onLink_eq_some hσ
        obtain ⟨node, hd, ⟨hpath, hq⟩ | ⟨hpath, hl, hq⟩ | ⟨hpath, hdraw⟩⟩ := draws_listDslink hσ
        · simp only [sends, hd, Option.bind_some, hpath, if_true]
          exact h.quiet hq
        · simp only [sends, hd, Option.bind_some, hpath, Option.isSome_none, Bool.false_eq_true, if_false,
            sendDrawn, hl, Option.map_none]
          exact h.quiet hq
        · simp only [sends, hd, Option.bind_some, hpath, Option.isSome_none, Bool.false_eq_true, if_false]
          obtain ⟨hroom, hforward⟩ := hapart node hd hpath
          exact h.drawn hdraw hroom (fun _ => hforward)
      | invoke L d rid =>
        obtain ⟨σ, hσ, rfl⟩ := Option.map_eq_some_iff.mp hs
        obtain ⟨-, -, hσ⟩ := onLink_eq_some hσ
        exact h.drawn (draws_invoke hσ) hapart.1 (fun _ => hapart.2)
      | _ => cases hdraws

theorem init_inv : init.Inv := by
  refine ⟨?_, ?_, ?_, ?_, ?_⟩
  · intro d node l hd
    cases hd
  · intro d d' node node' l hd
    cases hd
  · rintro q ⟨⟩
  · intro l link r x hl
    cases hl
  · rintro q ⟨⟩

end Wire

/-- In a run whose requests keep their rids apart no request is sent with the rid of an open stream, and the table of a
    responder never leads a response into a stream that another request opened. -/
theorem rids_apart {w : Wire} (h : Reach Wire.step (fun w e => WireEvent.Apart w e) (· = Wire.init) w) :
    (∀ q ∈ w.sent, q.taken = false) ∧ ∀ q ∈ w.sent, ∀ link s, w.registry.link.get q.link = some link →
      link.responderStreams.get q.rid = some (some s) → q.source = .drawn (some s) := by
  have hinv : w.Inv := by
    apply h.invariant Wire.Inv
    · rintro _ rfl
      exact Wire.init_inv
    · intro w e w' hi hapart hs
      exact hi.step hapart hs
  refine ⟨hinv.untaken, fun q hq link s hl hs => ?_⟩
  exact (hinv.entry q.link link q.rid (some s) hl hs).2 q hq rfl rfl s rfl

instance (w : Wire) (d : DownId) : Decidable (w.MayDraw d) := inferInstanceAs (Decidable (∀ _ ∈ _, ∀ _ ∈ _, _))

instance (w : Wire) (d : DownId) : Decidable (w.NotForwarded d) := inferInstanceAs (Decidable (∀ _ ∈ _, ∀ _ ∈ _, _))

instance (w : Wire) : ∀ e, Decidable (WireEvent.Apart w e)
  | .set d rid => inferInstanceAs (Decidable (∀ node ∈ w.registry.dnode.get d, ∀ l ∈ node.link,
      ∀ link ∈ w.registry.link.get l, link.responderStreams.get rid = none))
  | .registry (.takeRid d) => inferInstanceAs (Decidable (w.MayDraw d))
  | .registry (.connect d _) =>
    inferInstanceAs (Decidable (∀ node ∈ w.registry.dnode.get d, node.listStreams.size ≤ ridPeriod))
  | .registry (.listDslink _ d path _) => inferInstanceAs (Decidable (∀ node ∈ w.registry.dnode.get d,
      node.listStreams.get path = none → w.MayDraw d ∧ w.NotForwarded d))
  | .registry (.invoke _ d _) => inferInstanceAs (Decidable (w.MayDraw d ∧ w.NotForwarded d))
  | .registry (.addNode _) | .registry .addDownstream | .registry (.closeLink _) | .registry (.listSelf _ _ _)
  | .registry (.query _ _ _) | .registry (.publish _ _) | .registry (.close _ _) | .registry (.response _ _ _)
  | .registry (.childAdded _ _) | .registry (.freeNode _) | .registry (.freeDownstream _) =>
    inferInstanceAs (Decidable True)

/-- A client of the link 0 lists a path on the link 1 and invokes there, a set request with another rid is passed on. -/
theorem rids_apart_three : ∃ w : Wire, w.sent.length = 3 ∧ (∀ q ∈ w.sent, q.taken = false) ∧
    ∀ q ∈ w.sent, ∀ link s, w.registry.link.get q.link = some link →
      link.responderStreams.get q.rid = some (some s) → q.source = .drawn (some s) := by
  obtain ⟨w, hreach, hcheck⟩ := Reach.of_guarded Wire.step (fun w e => WireEvent.Apart w e) (some Wire.init)
    (Registry.twoLinks.map .registry ++ [.registry (.listDslink 0 1 (cstr "/x") 4), .registry (.invoke 0 1 5), .set 1 6])
    (fun w => w.sent.length = 3) (by decide)
  have h := rids_apart (hreach.of_init (fun _ hs => (Option.some.inj hs).symm))
  exact ⟨w, of_decide_eq_true hcheck, h⟩

/-- A client lists a path on the link 1, where the request gets the rid 1, and sends a set request with its own rid 1:
    the response to it goes into the list stream. -/
theorem rids_not_apart : ∃ w : Wire, Reach Wire.step (fun _ _ => True) (· = Wire.init) w ∧
    ∃ q ∈ w.sent, q.taken = true ∧ q.source = .forwarded ∧
      ∃ link s, w.registry.link.get q.link = some link ∧ link.responderStreams.get q.rid = some (some s) := by
  obtain ⟨w, hreach, hcheck⟩ := Reach.of_eval Wire.step (some Wire.init)
    (Registry.twoLinks.map .registry ++ [.registry (.listDslink 0 1 (cstr "/x") 4), .set 1 1])
    (fun w => w.sent.head?.any (fun q => q.taken && !q.source.isDrawn && (w.registry.link.get q.link).any (fun link =>
      link.responderStreams.get q.rid = some (some 0)))) (by decide)
  simp only [Option.any_eq_true, Bool.and_eq_true, Bool.not_eq_true', decide_eq_true_eq] at hcheck
  obtain ⟨q, hq, ⟨htaken, hsource⟩, link, hl, hs⟩ := hcheck
  refine ⟨w, hreach.of_init (fun _ hs => (Option.some.inj hs).symm), q, List.mem_of_mem_head? hq, htaken, ?_, link, 0,
    hl, hs⟩
  cases hq : q.source with
  | forwarded => rfl
  | drawn opens =>
    rw [hq] at hsource
    cases hsource

end DSLink
