import DSLink.Sdk.Calls

/-!
# `Sdk.Exchanges` — requests and their responses

Which callback a response or a row of values goes to. The abstract side is an `Exchange` for each rid and a `Watch` for
each sid, read off what the run shows: a request is open from its sending to the first response that closes its
stream, a value is watched from the subscription to the response that closes a request to unsubscribe it. Both agree
with the two maps as long as no rid is drawn a second time.

## Contents
- `Exchange`, `Watch`: the abstract sides.
- `Open`: what both need of the map of requests; `e` is the request whose closing response is being handled, or 0.
- `responses_delivered`, `values_delivered`.
-/

namespace DSLink.Requester

variable {κ : Type} {σ σ' τ : State κ} {req resp : Json} {cb : Option (RequestCb κ)} {held : Option Nat} {e rid sid : Nat}
  {holder : RequestHolder κ} {script : Script κ} {o : Obs κ}

/-! ## The abstract sides -/

/-- A response closes the stream. -/
def closes (resp : Json) : Bool := decide ((resp.get (cstr "stream")).bind Json.stringValue = some (cstr "closed"))

/-- One request: its callback while it is open, and the calls. -/
structure Exchange (κ : Type) where
  cb : Option (Option (RequestCb κ))
  calls : List (κ × Json)

/-- The calls that a response to an open request makes. -/
def answer (resp : Json) : Option (Option (RequestCb κ)) → List (κ × Json)
  | some (some (.app k)) => [(k, resp)]
  | _ => []

/-- What the run shows next. -/
def Exchange.next (rid : Nat) (x : Exchange κ) : Obs κ → Exchange κ
  | .sent r _ cb => if r = rid then { x with cb := some cb } else x
  | .received resp =>
    if ridOf resp = rid then ⟨if closes resp then none else x.cb, x.calls ++ answer resp x.cb⟩ else x
  | _ => x

/-- The exchange under a rid. -/
def exchange (rid : Nat) (log : List (Obs κ)) : Exchange κ := log.foldl (Exchange.next rid) ⟨none, []⟩

/-- The call of a callback of a request. -/
def Obs.callOf (rid : Nat) : Obs κ → Option (κ × Json)
  | .called r k resp => if r = rid then some (k, resp) else none
  | _ => none

/-- One value: its handler while it is watched, the open requests to unsubscribe it, and the calls. -/
structure Watch (κ : Type) where
  cbs : Option (Option κ)
  leaving : List Nat
  calls : List (κ × Option Json × Option Json)

/-- The calls that a row of a value makes. -/
def rowCalls (entry : Json) : Option (Option κ) → List (κ × Option Json × Option Json)
  | some (some k) => [(k, arrayGet entry 1, arrayGet entry 2)]
  | _ => []

/-- What the run shows next. -/
def Watch.next (sid : Nat) (w : Watch κ) : Obs κ → Watch κ
  | .sent rid req _ => if unsubscribed req = some sid then { w with leaving := rid :: w.leaving } else w
  | .subscribed s cbs => if s = sid then { w with cbs := some cbs } else w
  | .received resp =>
    if closes resp ∧ ridOf resp ∈ w.leaving then
      { w with cbs := none, leaving := w.leaving.filter (fun rid => rid ≠ ridOf resp) }
    else w
  | .row entry => if sidOf entry = sid then { w with calls := w.calls ++ rowCalls entry w.cbs } else w
  | _ => w

/-- The watch on a sid. -/
def watch (sid : Nat) (log : List (Obs κ)) : Watch κ := log.foldl (Watch.next sid) ⟨none, [], []⟩

/-- The call of a value handler. -/
def Obs.valueCallOf (sid : Nat) : Obs κ → Option (κ × Option Json × Option Json)
  | .valueCalled s k val ts => if s = sid then some (k, val, ts) else none
  | _ => none

theorem exchange_append (rid : Nat) (log : List (Obs κ)) (o : Obs κ) :
    exchange rid (log ++ [o]) = (exchange rid log).next rid o := List.foldl_concat _ _ _ _

theorem watch_append (sid : Nat) (log : List (Obs κ)) (o : Obs κ) :
    watch sid (log ++ [o]) = (watch sid log).next sid o := List.foldl_concat _ _ _ _

theorem closes_iff : closes resp = true ↔ resp.get (cstr "stream") = some (.string (cstr "closed")) := by
  unfold closes
  rw [decide_eq_true_iff]
  cases resp.get (cstr "stream") with
  | none => exact iff_of_false nofun nofun
  | some status =>
    cases status with
    | string stream => simp [Json.stringValue]
    | _ => exact iff_of_false nofun nofun

/-! ## Open requests -/

/-- No rid was drawn twice. -/
def Few (σ : State κ) : Prop := σ.rids.length ≤ 2147483647

/-- What both sides need: the rids count the requests, and `e` is not drawn again. -/
structure Open (e : Nat) (σ : State κ) : Prop where
  count : σ.rid = σ.rids.length
  below : ∀ r holder, σ.requestHandlers.get r = some holder → r ≤ σ.rid
  zero : σ.requestHandlers.get 0 = none
  closing : e ≤ σ.rid

/-- As long as no rid is drawn twice, the next rid is new. -/
theorem Open.next (h : Open e σ) (hs : Sends σ σ' req cb held) (hfew : Few σ') :
    incrRid σ.rid = σ.rid + 1 ∧ Few σ ∧ Open e σ' := by
  unfold Few at hfew
  rw [hs.rids, List.length_append, List.length_singleton, ← h.count] at hfew
  have hrid : incrRid σ.rid = σ.rid + 1 := by
    unfold incrRid
    rw [if_neg (Nat.not_le.mpr hfew)]
  refine ⟨hrid, ?_, ?_, fun r holder hget => ?_, ?_, ?_⟩
  · rw [Few, ← h.count]
    exact Nat.le_of_lt hfew
  · rw [hs.rids, hs.rid, hrid, h.count, List.length_append, List.length_singleton]
  · rw [hs.handlers] at hget
    rw [hs.rid, hrid]
    split at hget
    · rename_i hr
      exact Nat.le_of_eq (hr.trans hrid)
    · exact Nat.le_succ_of_le (h.below r holder hget)
  · rw [hs.handlers, if_neg (by omega)]
    exact h.zero
  · rw [hs.rid, hrid]
    exact Nat.le_succ_of_le h.closing

theorem Open.same (h : Open e σ) (hrid : σ'.rid = σ.rid) (hhandlers : σ'.requestHandlers = σ.requestHandlers)
    (hrids : σ'.rids = σ.rids) : Open e σ' := by
  refine ⟨?_, ?_, ?_, ?_⟩
  · rw [hrid, hrids]
    exact h.count
  · rw [hrid, hhandlers]
    exact h.below
  · rw [hhandlers]
    exact h.zero
  · rw [hrid]
    exact h.closing

/-- Another request may be the one whose response is being handled. -/
theorem Open.of_get (h : Open 0 σ) (hget : σ.requestHandlers.get rid = some holder) : Open rid σ :=
  ⟨h.count, h.below, h.zero, h.below rid holder hget⟩

theorem Open.erase (h : Open e σ) (hne : e ≠ 0) :
    Open 0 { σ with requestHandlers := σ.requestHandlers.erase e } :=
  ⟨h.count, fun r holder hget => h.below r holder (AssocMap.get_erase_eq_some.mp hget).2,
    (AssocMap.get_erase_ne (Ne.symm hne)).trans h.zero, Nat.zero_le _⟩

/-- The rids that were drawn up to a state were drawn up to a later one. -/
theorem Sends.few (hs : Sends σ σ' req cb held) (h : Few σ') : Few σ := by
  unfold Few at h ⊢
  rw [hs.rids, List.length_append] at h
  exact Nat.le_of_add_right_le h

theorem few_congr (h : σ'.rids = σ.rids) : Few σ' ↔ Few σ := by
  unfold Few
  rw [h]

theorem rids_subscribed (σ : State κ) (sid : Nat) (cbs : Option κ) : (σ.note (.subscribed sid cbs)).rids = σ.rids := by
  rw [rids_append rfl]
  exact List.append_nil _

/-! ## Responses -/

/-- The map of requests is the open exchanges, and the calls are theirs. -/
structure Tracked (e : Nat) (σ : State κ) : Prop extends Open e σ where
  handlers : ∀ r, r ≠ e → (σ.requestHandlers.get r).map RequestHolder.cb = (exchange r σ.log).cb
  closed : (exchange e σ.log).cb = none
  calls : ∀ r, σ.log.filterMap (Obs.callOf r) = (exchange r σ.log).calls

theorem filterMap_concat {α β : Type} (f : α → Option β) (l : List α) (a : α) :
    (l ++ [a]).filterMap f = l.filterMap f ++ (f a).toList := by
  rw [List.filterMap_append]
  cases h : f a <;> simp [h]

theorem Tracked.sends (h : Tracked e σ) (hs : Sends σ σ' req cb held) (hfew : Few σ') : Tracked e σ' := by
  obtain ⟨hrid, -, hopen⟩ := h.toOpen.next hs hfew
  have hexchange : ∀ r, exchange r σ'.log = (exchange r σ.log).next r (.sent (incrRid σ.rid) req cb) := by
    intro r
    rw [hs.log, exchange_append]
  refine ⟨hopen, fun r hr => ?_, ?_, fun r => ?_⟩
  · rw [hs.handlers, hexchange]
    by_cases he : r = incrRid σ.rid
    · rw [if_pos he, Exchange.next, if_pos he.symm]
      rfl
    · rw [if_neg he, Exchange.next, if_neg (Ne.symm he)]
      exact h.handlers r hr
  · have hne : incrRid σ.rid ≠ e := by
      have := h.closing
      omega
    rw [hexchange, Exchange.next, if_neg hne]
    exact h.closed
  · rw [hs.log, filterMap_concat, ← hs.log, hexchange, h.calls r, Exchange.next]
    split <;> exact List.append_nil _

/-- What draws no rid leaves the exchanges alone, unless it is a response to an open one. -/
theorem Tracked.note (h : Tracked e σ) (hdrawn : o.drawnRid = none)
    (hexchange : ∀ r, (exchange r σ.log).next r o = exchange r σ.log)
    (hcall : ∀ r, o.callOf r = none) (hlog : σ'.log = σ.log ++ [o]) (hrid : σ'.rid = σ.rid)
    (hhandlers : σ'.requestHandlers = σ.requestHandlers) : Tracked e σ' := by
  refine ⟨h.toOpen.same hrid hhandlers ?_, fun r hr => ?_, ?_, fun r => ?_⟩
  · rw [rids_append hlog, hdrawn]
    exact List.append_nil _
  · rw [hhandlers, hlog, exchange_append, hexchange]
    exact h.handlers r hr
  · rw [hlog, exchange_append, hexchange]
    exact h.closed
  · rw [hlog, filterMap_concat, hcall, exchange_append, hexchange, h.calls r]
    exact List.append_nil _

theorem tracked_callsKeep (e : Nat) : CallsKeep (fun σ : State κ => Few σ → Tracked e σ) where
  frame σ members h hfew := by
    have h := h hfew
    exact ⟨h.toOpen.same rfl rfl rfl, h.handlers, h.closed, h.calls⟩
  sends σ σ' req cb held _ hs h hfew := (h (hs.few hfew)).sends hs hfew
  subscribes σ σ' cbs hs h hfew := by
    obtain ⟨τ, req, cb, held, -, hτ, rfl⟩ := hs.sends
    have hfewτ : Few τ := (few_congr (rids_subscribed _ _ _)).mp hfew
    have hσ := h (hτ.few hfewτ)
    have hmid : Tracked e { σ with sid := incrSid σ.sid } :=
      ⟨hσ.toOpen.same rfl rfl rfl, hσ.handlers, hσ.closed, hσ.calls⟩
    exact (hmid.sends hτ hfewτ).note rfl (fun _ => rfl) (fun _ => rfl) rfl rfl rfl

/-- What a response to an open request shows. -/
def shown (rid : Nat) (resp : Json) : Option (RequestCb κ) → List (Obs κ)
  | some (.app k) => [.called rid k resp]
  | _ => []

theorem noteCall_log (σ : State κ) (rid : Nat) (resp : Json) (cb : Option (RequestCb κ)) :
    (noteCall σ rid resp cb).log = σ.log ++ shown rid resp cb := by
  rcases cb with _ | (_ | k)
  · exact (List.append_nil _).symm
  · exact (List.append_nil _).symm
  · rfl

theorem filterMap_shown (r rid : Nat) (resp : Json) (cb : Option (RequestCb κ)) :
    (shown rid resp cb).filterMap (Obs.callOf r) = if rid = r then answer resp (some cb) else [] := by
  rcases cb with _ | (_ | k)
  · simp [shown, answer]
  · simp [shown, answer]
  · by_cases hr : rid = r <;> simp [shown, answer, Obs.callOf, hr]

theorem exchange_shown (r rid : Nat) (resp : Json) (cb : Option (RequestCb κ)) (log : List (Obs κ)) :
    exchange r (log ++ shown rid resp cb) = exchange r log := by
  rcases cb with _ | (_ | k)
  · rw [shown, List.append_nil]
    exact nofun
  · rw [shown, List.append_nil]
    exact nofun
  · exact exchange_append r log _

theorem rids_shown {log : List (Obs κ)} (rid : Nat) (resp : Json) (cb : Option (RequestCb κ)) :
    (log ++ shown rid resp cb).filterMap Obs.drawnRid = log.filterMap Obs.drawnRid := by
  rcases cb with _ | (_ | k) <;> simp [shown, Obs.drawnRid]

theorem few_noteCall (h : Few (noteCall σ rid resp cb)) : Few σ := by
  rw [Few, State.rids, noteCall_log, rids_shown] at h
  exact h

/-- A response to an open request: its exchange answers, and is closed if the stream is. -/
theorem Tracked.answer (h : Tracked 0 σ) (hne : ridOf resp ≠ 0) (hget : σ.requestHandlers.get (ridOf resp) = some holder)
    (hlog : σ'.log = σ.log ++ [.received resp] ++ shown (ridOf resp) resp holder.cb) (hrid : σ'.rid = σ.rid)
    (hhandlers : σ'.requestHandlers = σ.requestHandlers) :
    Tracked (if closes resp then ridOf resp else 0) σ' := by
  have hcb : (exchange (ridOf resp) σ.log).cb = some holder.cb := by
    rw [← h.handlers _ hne, hget]
    rfl
  have hexchange : ∀ r, exchange r σ'.log = (exchange r σ.log).next r (.received resp) := by
    intro r
    rw [hlog, exchange_shown, exchange_append]
  have hrids : σ'.rids = σ.rids := by
    rw [State.rids, hlog, rids_shown, filterMap_concat]
    exact List.append_nil _
  have hcalls : ∀ r, σ'.log.filterMap (Obs.callOf r) = (exchange r σ'.log).calls := by
    intro r
    rw [hexchange, hlog, List.filterMap_append, filterMap_concat, filterMap_shown, h.calls r, Exchange.next]
    by_cases hr : ridOf resp = r
    · subst hr
      rw [if_pos rfl, if_pos rfl, hcb]
      exact congrArg (· ++ _) (List.append_nil _)
    · rw [if_neg hr, if_neg hr, List.append_nil]
      exact List.append_nil _
  cases hcloses : closes resp with
  | true =>
    rw [if_pos rfl]
    refine ⟨(h.toOpen.of_get hget).same hrid hhandlers hrids, fun r hr => ?_, ?_, hcalls⟩
    · rw [hexchange, Exchange.next, if_neg (Ne.symm hr), hhandlers]
      by_cases h0 : r = 0
      · subst h0
        rw [h.closed, h.zero]
        rfl
      · exact h.handlers r h0
    · rw [hexchange, Exchange.next, if_pos rfl, hcloses]
      rfl
  | false =>
    rw [if_neg (by decide)]
    refine ⟨h.toOpen.same hrid hhandlers hrids, fun r hr => ?_, ?_, hcalls⟩
    · rw [hexchange, Exchange.next, hhandlers]
      split
      · rw [hcloses]
        exact h.handlers r hr
      · exact h.handlers r hr
    · rw [hexchange, Exchange.next, if_neg hne]
      exact h.closed

theorem Tracked.erase (h : Tracked e σ) (hne : e ≠ 0) :
    Tracked 0 { σ with requestHandlers := σ.requestHandlers.erase e } := by
  refine ⟨h.toOpen.erase hne, fun r hr => ?_, ?_, h.calls⟩
  · show ((σ.requestHandlers.erase e).get r).map _ = _
    rw [AssocMap.get_erase]
    split
    · rename_i hre
      rw [hre, h.closed]
      rfl
    · exact h.handlers r ‹_›
  · rw [← h.handlers 0 (Ne.symm hne), h.zero]
    rfl

theorem Tracked.received (h : Tracked 0 σ) (hget : ridOf resp ≠ 0 → σ.requestHandlers.get (ridOf resp) = none) :
    Tracked 0 (σ.note (.received resp)) := by
  refine h.note rfl (fun r => ?_) (fun _ => rfl) rfl rfl rfl
  rw [Exchange.next]
  split
  · rename_i hr
    subst hr
    have hcb : (exchange (ridOf resp) σ.log).cb = none := by
      by_cases h0 : ridOf resp = 0
      · rw [h0]
        exact h.closed
      · rw [← h.handlers _ h0, hget h0]
        rfl
    rw [hcb]
    cases hx : exchange (ridOf resp) σ.log with
    | mk cb calls =>
      rw [hx] at hcb
      cases hcb
      simp [Requester.answer]
  · rfl

theorem Tracked.row (h : Tracked 0 σ) (entry : Json) : Tracked 0 (σ.note (.row entry)) :=
  h.note rfl (fun _ => rfl) (fun _ => rfl) rfl rfl rfl

/-- The rows of rid 0 leave the exchanges alone, and what their callbacks do keeps them. -/
theorem Tracked.handleRow (h : Few σ → Tracked 0 σ) (script : Script κ) (entry : Json) :
    Few (σ.handleRow script entry) → Tracked 0 (σ.handleRow script entry) := by
  have hrow : Few (σ.note (.row entry)) → Tracked 0 (σ.note (.row entry)) := fun hfew =>
    (h ((few_congr (rids_incoming (o := .row entry) trivial)).mp hfew)).row entry
  obtain ⟨-, heq⟩ | ⟨k, -, heq⟩ := handleRow_cases script σ entry
  · rw [heq]
    exact hrow
  · rw [heq]
    refine (tracked_callsKeep 0).commands (fun hfew => ?_) _
    exact (hrow ((few_congr (rids_incoming (o := .valueCalled _ k _ _) trivial)).mp hfew)).note rfl (fun _ => rfl)
      (fun _ => rfl) rfl rfl rfl

/-- A closing response runs no callback of its own: `close_cb` does nothing. -/
theorem closeRequest_spec (hfit : Fit holder) (h : τ.closeRequest script rid resp holder = some σ') :
    ∃ υ, τ.dropValueHandler holder = some υ ∧ υ.rid = τ.rid ∧ υ.requestHandlers = τ.requestHandlers ∧ υ.log = τ.log ∧
      σ' = { (callsMade script resp holder.cb).foldl command (noteCall υ rid resp holder.cb) with
        requestHandlers := ((callsMade script resp holder.cb).foldl command
          (noteCall υ rid resp holder.cb)).requestHandlers.erase rid } := by
  obtain ⟨υ, hυ, rfl⟩ := closeRequest_eq_some h
  rw [hfit.closeCb] at hυ
  have hυ : τ.dropValueHandler holder = some υ := hυ
  refine ⟨υ, hυ, ?_⟩
  rw [runCb_eq]
  unfold State.dropValueHandler at hυ
  obtain ⟨method, -, hυ⟩ := Option.bind_eq_some_iff.mp hυ
  split at hυ
  · obtain ⟨s, -, hυ⟩ := Option.bind_eq_some_iff.mp hυ
    obtain rfl := Option.some.inj hυ
    split <;> exact ⟨rfl, rfl, rfl, rfl⟩
  · obtain rfl := Option.some.inj hυ
    exact ⟨rfl, rfl, rfl, rfl⟩

theorem noteCall_same (σ : State κ) (rid : Nat) (resp : Json) (cb : Option (RequestCb κ)) :
    (noteCall σ rid resp cb).rid = σ.rid ∧ (noteCall σ rid resp cb).requestHandlers = σ.requestHandlers := by
  rcases cb with _ | (_ | k) <;> exact ⟨rfl, rfl⟩

theorem few_dropped (hlog : σ'.log = σ.log) (h : Few (noteCall σ' rid resp cb)) : Few σ := by
  have hfew := few_noteCall h
  rw [Few, State.rids, hlog] at hfew
  exact hfew

theorem Tracked.responseHandle (hfit : AllFit σ) (h : Few σ → Tracked 0 σ)
    (hs : σ.responseHandle script resp = some σ') : Few σ' → Tracked 0 σ' := by
  have hfewσ : Few (σ.note (.received resp)) → Few σ := (few_congr (rids_incoming (o := .received resp) trivial)).mp
  obtain ⟨hrid, rfl⟩ | ⟨hrid, hget, rfl⟩ | ⟨holder, hrid, hget, hopen, rfl⟩ | ⟨holder, hrid, hget, hclosed, hclose⟩ :=
    responseHandle_cases hs
  · have hstart : Few (σ.note (.received resp)) → Tracked 0 (σ.note (.received resp)) := fun hfew =>
      (h (hfewσ hfew)).received (fun hne => absurd hrid hne)
    exact List.foldlRecOn (motive := fun τ => Few τ → Tracked 0 τ) _ _ hstart
      (fun _ hτ entry _ => Tracked.handleRow hτ script entry)
  · exact fun hfew => (h (hfewσ hfew)).received (fun _ => hget)
  · have hcloses : closes resp = false := Bool.eq_false_iff.mpr (fun hc => hopen (closes_iff.mp hc))
    obtain ⟨hrid', hhandlers⟩ := noteCall_same (σ.note (.received resp)) (ridOf resp) resp holder.cb
    have hlog := noteCall_log (σ.note (.received resp)) (ridOf resp) resp holder.cb
    rw [runCb_eq]
    refine (tracked_callsKeep 0).commands (fun hfew => ?_) _
    have hanswer := (h (hfewσ (few_noteCall hfew))).answer hrid hget hlog hrid' hhandlers
    rwa [hcloses, if_neg (by decide)] at hanswer
  · have hcloses : closes resp = true := closes_iff.mpr hclosed
    obtain ⟨υ, -, hυrid, hυhandlers, hυlog, rfl⟩ := closeRequest_spec (hfit _ _ hget) hclose
    obtain ⟨hrid', hhandlers⟩ := noteCall_same υ (ridOf resp) resp holder.cb
    have hlog := noteCall_log υ (ridOf resp) resp holder.cb
    rw [hυlog] at hlog
    have hkept := (tracked_callsKeep (ridOf resp)).commands (σ := noteCall υ (ridOf resp) resp holder.cb)
      (fun hfew => by
        have hanswer := (h (hfewσ (few_dropped hυlog hfew))).answer hrid hget hlog (hrid'.trans hυrid)
          (hhandlers.trans hυhandlers)
        rwa [hcloses, if_pos rfl] at hanswer) (callsMade script resp holder.cb)
    exact fun hfew => (hkept hfew).erase hrid

theorem Tracked.init : Tracked 0 (init : State κ) :=
  ⟨⟨rfl, nofun, rfl, Nat.le_refl _⟩, fun _ _ => rfl, rfl, fun _ => rfl⟩

theorem Reached.allFit (h : Reached σ) : AllFit σ := h.kept allFit_kept nofun

/-- The map of value handlers is the watches, the open requests to unsubscribe are theirs, and so are the calls. -/
structure Watched (e : Nat) (σ : State κ) : Prop extends Open e σ where
  values : ∀ s, σ.valueHandlers.get s = (watch s σ.log).cbs
  noSid : σ.valueHandlers.get 0 = none
  leaving : ∀ s r, r ≠ e → (r ∈ (watch s σ.log).leaving ↔
    ∃ holder, σ.requestHandlers.get r = some holder ∧ unsubscribed holder.req = some s)
  left : ∀ s, e ∉ (watch s σ.log).leaving
  calls : ∀ s, σ.log.filterMap (Obs.valueCallOf s) = (watch s σ.log).calls

theorem Watched.sends (h : Watched e σ) (hs : Sends σ σ' req cb held) (hfew : Few σ') : Watched e σ' := by
  obtain ⟨hrid, -, hopen⟩ := h.toOpen.next hs hfew
  have hwatch : ∀ s, watch s σ'.log = (watch s σ.log).next s (.sent (incrRid σ.rid) req cb) := by
    intro s
    rw [hs.log, watch_append]
  have hcbs : ∀ s, (watch s σ'.log).cbs = (watch s σ.log).cbs ∧ (watch s σ'.log).calls = (watch s σ.log).calls := by
    intro s
    rw [hwatch, Watch.next]
    split <;> exact ⟨rfl, rfl⟩
  have hmem : ∀ s r, r ∈ (watch s σ'.log).leaving ↔
      (r = incrRid σ.rid ∧ unsubscribed req = some s) ∨ r ∈ (watch s σ.log).leaving := by
    intro s r
    rw [hwatch, Watch.next]
    by_cases hu : unsubscribed req = some s
    · rw [if_pos hu]
      simp [hu]
    · rw [if_neg hu]
      simp [hu]
  refine ⟨hopen, fun s => ?_, ?_, fun s r hr => ?_, fun s he => ?_, fun s => ?_⟩
  · rw [hs.values, (hcbs s).1]
    exact h.values s
  · rw [hs.values]
    exact h.noSid
  · rw [hmem, hs.handlers]
    by_cases hnew : r = incrRid σ.rid
    · rw [if_pos hnew]
      -- the new rid is no open request's
      have hold : σ.requestHandlers.get r = none := by
        rw [Option.eq_none_iff_forall_ne_some]
        intro holder hget
        have := h.below r holder hget
        omega
      rw [h.leaving s r hr, hold]
      simp [hnew]
    · rw [if_neg hnew, h.leaving s r hr]
      simp [hnew]
  · rcases (hmem s e).mp he with ⟨hnew, -⟩ | he
    · have := h.closing
      omega
    · exact h.left s he
  · rw [hs.log, filterMap_concat, ← hs.log, (hcbs s).2, h.calls s]
    exact List.append_nil _

/-- What draws no rid and leaves the watches alone. -/
theorem Watched.note (h : Watched e σ) (hdrawn : o.drawnRid = none)
    (hwatch : ∀ s, (watch s σ.log).next s o = watch s σ.log) (hcall : ∀ s, o.valueCallOf s = none)
    (hlog : σ'.log = σ.log ++ [o]) (hrid : σ'.rid = σ.rid) (hhandlers : σ'.requestHandlers = σ.requestHandlers)
    (hvalues : σ'.valueHandlers = σ.valueHandlers) : Watched e σ' := by
  have heq : ∀ s, watch s σ'.log = watch s σ.log := by
    intro s
    rw [hlog, watch_append, hwatch]
  refine ⟨h.toOpen.same hrid hhandlers ?_, fun s => ?_, ?_, fun s r hr => ?_, fun s => ?_, fun s => ?_⟩
  · rw [rids_append hlog, hdrawn]
    exact List.append_nil _
  · rw [heq, hvalues]
    exact h.values s
  · rw [hvalues]
    exact h.noSid
  · rw [heq, hhandlers]
    exact h.leaving s r hr
  · rw [heq]
    exact h.left s
  · rw [heq, hlog, filterMap_concat, hcall, h.calls s]
    exact List.append_nil _

theorem Watched.subscribed (h : Watched e σ) (cbs : Option κ) (hsid : sid ≠ 0) :
    Watched e (State.note { σ with valueHandlers := σ.valueHandlers.set sid cbs } (.subscribed sid cbs)) := by
  have hwatch : ∀ s, watch s (σ.log ++ [.subscribed sid cbs]) = (watch s σ.log).next s (.subscribed sid cbs) :=
    fun s => watch_append s σ.log _
  have hsame : ∀ s, (watch s (σ.log ++ [.subscribed sid cbs])).leaving = (watch s σ.log).leaving ∧
      (watch s (σ.log ++ [.subscribed sid cbs])).calls = (watch s σ.log).calls := by
    intro s
    rw [hwatch, Watch.next]
    split <;> exact ⟨rfl, rfl⟩
  refine ⟨h.toOpen.same rfl rfl (rids_subscribed _ _ _), fun s => ?_, ?_, fun s r hr => ?_, fun s => ?_, fun s => ?_⟩
  · show (σ.valueHandlers.set sid cbs).get s = (watch s (σ.log ++ _)).cbs
    rw [hwatch, Watch.next, AssocMap.get_set]
    by_cases hs : s = sid
    · rw [if_pos hs, if_pos hs.symm]
    · rw [if_neg hs, if_neg (Ne.symm hs)]
      exact h.values s
  · show (σ.valueHandlers.set sid cbs).get 0 = none
    rw [AssocMap.get_set_ne (Ne.symm hsid)]
    exact h.noSid
  · show r ∈ (watch s (σ.log ++ _)).leaving ↔ _
    rw [(hsame s).1]
    exact h.leaving s r hr
  · show e ∉ (watch s (σ.log ++ _)).leaving
    rw [(hsame s).1]
    exact h.left s
  · show (σ.log ++ _).filterMap _ = (watch s (σ.log ++ _)).calls
    rw [(hsame s).2, filterMap_concat, h.calls s]
    exact List.append_nil _

theorem watched_callsKeep (e : Nat) : CallsKeep (fun σ : State κ => Few σ → Watched e σ) where
  frame σ members h hfew := by
    have h := h hfew
    exact ⟨h.toOpen.same rfl rfl rfl, h.values, h.noSid, h.leaving, h.left, h.calls⟩
  sends σ σ' req cb held _ hs h hfew := (h (hs.few hfew)).sends hs hfew
  subscribes σ σ' cbs hs h hfew := by
    obtain ⟨τ, req, cb, held, -, hτ, rfl⟩ := hs.sends
    have hfewτ : Few τ := (few_congr (rids_subscribed _ _ _)).mp hfew
    have hσ := h (hτ.few hfewτ)
    have hmid : Watched e { σ with sid := incrSid σ.sid } :=
      ⟨hσ.toOpen.same rfl rfl rfl, hσ.values, hσ.noSid, hσ.leaving, hσ.left, hσ.calls⟩
    exact (hmid.sends hτ hfewτ).subscribed cbs (Nat.succ_ne_zero _)

theorem Watched.called (h : Watched e σ) (rid : Nat) (resp : Json) (cb : Option (RequestCb κ)) :
    Watched e (noteCall σ rid resp cb) := by
  rcases cb with _ | (_ | k)
  · exact h
  · exact h
  · exact h.note rfl (fun _ => rfl) (fun _ => rfl) rfl rfl rfl rfl

/-- A response that closes no open request to unsubscribe. -/
theorem Watched.received (h : Watched 0 σ) (hclosed : closes resp → ∀ s, ridOf resp ∉ (watch s σ.log).leaving) :
    Watched 0 (σ.note (.received resp)) := by
  refine h.note rfl (fun s => ?_) (fun _ => rfl) rfl rfl rfl rfl
  rw [Watch.next, if_neg]
  rintro ⟨hc, hm⟩
  exact hclosed hc s hm

/-- What `dslink_response_handle` does to the value handlers, by what the request unsubscribes. -/
theorem dropValueHandler_get (hfit : Fit holder) (hzero : τ.valueHandlers.get 0 = none)
    (h : τ.dropValueHandler holder = some σ') (s : Nat) :
    σ'.valueHandlers.get s = if unsubscribed holder.req = some s then none else τ.valueHandlers.get s := by
  obtain ⟨method, hmethod, hheld⟩ := hfit.proper
  have hmethod' : (holder.req.get (cstr "method")).bind Json.stringValue = some method := hmethod
  unfold State.dropValueHandler at h
  rw [hmethod'] at h
  by_cases hunsub : method = cstr "unsubscribe"
  · obtain ⟨s', hs', hu⟩ := hheld hunsub
    simp only [hunsub, hs', Option.bind_eq_bind, Option.bind_some, if_true, Option.pure_def, Option.some.injEq] at h
    rw [hu, ← h]
    by_cases h0 : s' = 0
    · subst h0
      rw [if_pos rfl]
      split
      · rename_i h0
        rw [← Option.some.inj h0, hzero]
      · rfl
    · rw [if_neg h0]
      show (τ.valueHandlers.erase s').get s = _
      rw [AssocMap.get_erase]
      simp [eq_comm]
  · have hu : unsubscribed holder.req = none := by
      unfold unsubscribed
      rw [hmethod, if_neg (fun he => hunsub (Option.some.inj he))]
    simp only [hunsub, Option.bind_eq_bind, Option.bind_some, if_false, Option.pure_def, Option.some.injEq] at h
    rw [hu, if_neg nofun, h]

/-- The closing response of an open request: a watch that it unsubscribes ends. -/
theorem Watched.close (h : Watched 0 σ) (hfit : Fit holder) (hne : ridOf resp ≠ 0)
    (hget : σ.requestHandlers.get (ridOf resp) = some holder) (hcloses : closes resp = true)
    (hdrop : (σ.note (.received resp)).dropValueHandler holder = some σ') (hrid : σ'.rid = σ.rid)
    (hhandlers : σ'.requestHandlers = σ.requestHandlers) (hlog : σ'.log = σ.log ++ [.received resp]) :
    Watched (ridOf resp) σ' := by
  have hmem : ∀ s, ridOf resp ∈ (watch s σ.log).leaving ↔ unsubscribed holder.req = some s := by
    intro s
    rw [h.leaving s _ hne, hget]
    simp
  have hwatch : ∀ s, watch s σ'.log = if unsubscribed holder.req = some s then
      { watch s σ.log with cbs := none, leaving := (watch s σ.log).leaving.filter (fun rid => rid ≠ ridOf resp) }
      else watch s σ.log := by
    intro s
    rw [hlog, watch_append, Watch.next]
    simp only [hcloses, hmem, true_and]
  have hvalues := dropValueHandler_get hfit (τ := σ.note (.received resp)) h.noSid hdrop
  refine ⟨(h.toOpen.of_get hget).same hrid hhandlers ?_, fun s => ?_, ?_, fun s r hr => ?_, fun s => ?_, fun s => ?_⟩
  · rw [rids_append hlog]
    exact List.append_nil _
  · rw [hvalues, hwatch]
    split
    · rfl
    · exact h.values s
  · rw [hvalues]
    split
    · rfl
    · exact h.noSid
  · have hleave : r ∈ (watch s σ'.log).leaving ↔ r ∈ (watch s σ.log).leaving := by
      rw [hwatch]
      split
      · rw [List.mem_filter]
        simp [hr]
      · rfl
    rw [hleave, hhandlers]
    by_cases h0 : r = 0
    · subst h0
      rw [h.zero]
      exact iff_of_false (h.left s) nofun
    · exact h.leaving s r h0
  · rw [hwatch]
    split
    · simp
    · rename_i hu
      exact fun hm => hu ((hmem s).mp hm)
  · rw [hlog, filterMap_concat, h.calls s, ← hlog, hwatch]
    split <;> exact List.append_nil _

theorem Watched.erase (h : Watched e σ) (hne : e ≠ 0) :
    Watched 0 { σ with requestHandlers := σ.requestHandlers.erase e } := by
  refine ⟨h.toOpen.erase hne, h.values, h.noSid, fun s r hr => ?_, fun s => ?_, h.calls⟩
  · by_cases hre : r = e
    · subst hre
      refine iff_of_false (h.left s) ?_
      rintro ⟨holder, hget, -⟩
      exact (AssocMap.get_erase_eq_some.mp hget).1 rfl
    · show _ ↔ ∃ holder, (σ.requestHandlers.erase e).get r = some holder ∧ _
      rw [AssocMap.get_erase_ne hre]
      exact h.leaving s r hre
  · rw [h.leaving s 0 (Ne.symm hne), h.zero]
    exact nofun

theorem Watched.rowUnheard (h : Watched 0 σ) {entry : Json}
    (hget : ∀ k, σ.valueHandlers.get (sidOf entry) ≠ some (some k)) : Watched 0 (σ.note (.row entry)) := by
  refine h.note rfl (fun s => ?_) (fun _ => rfl) rfl rfl rfl rfl
  rw [Watch.next]
  split
  · rename_i hs
    have hcalls : rowCalls entry (watch s σ.log).cbs = [] := by
      rw [← h.values, ← hs]
      rcases hv : σ.valueHandlers.get (sidOf entry) with _ | (_ | k)
      · rfl
      · rfl
      · exact absurd hv (hget k)
    rw [hcalls, List.append_nil]
  · rfl

/-- A row of a watched value is one call. -/
theorem Watched.rowHeard (h : Watched 0 σ) {entry : Json} {k : κ}
    (hget : σ.valueHandlers.get (sidOf entry) = some (some k)) :
    Watched 0 ((σ.note (.row entry)).note (.valueCalled (sidOf entry) k (arrayGet entry 1) (arrayGet entry 2))) := by
  have hwatch : ∀ s, watch s (σ.log ++ [.row entry] ++ [.valueCalled (sidOf entry) k (arrayGet entry 1)
      (arrayGet entry 2)]) = (watch s σ.log).next s (.row entry) := by
    intro s
    rw [watch_append, watch_append]
    rfl
  have hsame : ∀ s, ((watch s σ.log).next s (.row entry)).cbs = (watch s σ.log).cbs ∧
      ((watch s σ.log).next s (.row entry)).leaving = (watch s σ.log).leaving := by
    intro s
    rw [Watch.next]
    split <;> exact ⟨rfl, rfl⟩
  refine ⟨h.toOpen.same rfl rfl ?_, fun s => ?_, h.noSid, fun s r hr => ?_, fun s => ?_, fun s => ?_⟩
  · rw [rids_incoming (o := .valueCalled _ k _ _) trivial, rids_incoming (o := .row entry) trivial]
  · show _ = (watch s (σ.log ++ _ ++ _)).cbs
    rw [hwatch, (hsame s).1]
    exact h.values s
  · show r ∈ (watch s (σ.log ++ _ ++ _)).leaving ↔ _
    rw [hwatch, (hsame s).2]
    exact h.leaving s r hr
  · show 0 ∉ (watch s (σ.log ++ _ ++ _)).leaving
    rw [hwatch, (hsame s).2]
    exact h.left s
  · show (σ.log ++ _ ++ _).filterMap _ = (watch s (σ.log ++ _ ++ _)).calls
    rw [hwatch, filterMap_concat, filterMap_concat, h.calls s, Watch.next]
    by_cases hs : sidOf entry = s
    · have hcbs : (watch s σ.log).cbs = some (some k) := by
        rw [← h.values, ← hs, hget]
      rw [if_pos hs, hcbs]
      simp [Obs.valueCallOf, rowCalls, hs]
    · simp [Obs.valueCallOf, hs]

theorem Watched.handleRow (h : Few σ → Watched 0 σ) (script : Script κ) (entry : Json) :
    Few (σ.handleRow script entry) → Watched 0 (σ.handleRow script entry) := by
  have hfewσ : Few (σ.note (.row entry)) → Few σ := (few_congr (rids_incoming (o := .row entry) trivial)).mp
  obtain ⟨hget, heq⟩ | ⟨k, hget, heq⟩ := handleRow_cases script σ entry
  · rw [heq]
    exact fun hfew => (h (hfewσ hfew)).rowUnheard hget
  · rw [heq]
    refine (watched_callsKeep 0).commands (fun hfew => ?_) _
    exact (h (hfewσ ((few_congr (rids_incoming (o := .valueCalled _ k _ _) trivial)).mp hfew))).rowHeard hget

theorem Watched.responseHandle (hfit : AllFit σ) (h : Few σ → Watched 0 σ)
    (hs : σ.responseHandle script resp = some σ') : Few σ' → Watched 0 σ' := by
  have hfewσ : Few (σ.note (.received resp)) → Few σ := (few_congr (rids_incoming (o := .received resp) trivial)).mp
  obtain ⟨hrid, rfl⟩ | ⟨hrid, hget, rfl⟩ | ⟨holder, hrid, hget, hopen, rfl⟩ | ⟨holder, hrid, hget, hclosed, hclose⟩ :=
    responseHandle_cases hs
  · have hstart : Few (σ.note (.received resp)) → Watched 0 (σ.note (.received resp)) := fun hfew =>
      (h (hfewσ hfew)).received (fun _ s => hrid ▸ (h (hfewσ hfew)).left s)
    exact List.foldlRecOn (motive := fun τ => Few τ → Watched 0 τ) _ _ hstart
      (fun _ hτ entry _ => Watched.handleRow hτ script entry)
  · refine fun hfew => (h (hfewσ hfew)).received (fun _ s hm => ?_)
    obtain ⟨holder, hsome, -⟩ := ((h (hfewσ hfew)).leaving s _ hrid).mp hm
    rw [hget] at hsome
    cases hsome
  · have hcloses : ¬closes resp = true := fun hc => hopen (closes_iff.mp hc)
    rw [runCb_eq]
    refine (watched_callsKeep 0).commands (fun hfew => ?_) _
    exact ((h (hfewσ (few_noteCall hfew))).received (fun hc => absurd hc hcloses)).called _ _ _
  · have hcloses : closes resp = true := closes_iff.mpr hclosed
    obtain ⟨υ, hdrop, hυrid, hυhandlers, hυlog, rfl⟩ := closeRequest_spec (hfit _ _ hget) hclose
    have hkept := (watched_callsKeep (ridOf resp)).commands (σ := noteCall υ (ridOf resp) resp holder.cb)
      (fun hfew => ((h (hfewσ (few_dropped hυlog hfew))).close (hfit _ _ hget) hrid hget hcloses hdrop hυrid hυhandlers
        hυlog).called _ _ _) (callsMade script resp holder.cb)
    exact fun hfew => (hkept hfew).erase hrid

theorem Watched.init : Watched 0 (init : State κ) :=
  ⟨⟨rfl, nofun, rfl, Nat.le_refl _⟩, fun _ => rfl, rfl, fun _ _ _ => ⟨nofun, nofun⟩, fun _ => nofun, fun _ => rfl⟩

theorem Reached.watched (h : Reached σ) (hfew : Few σ) : Watched 0 σ := by
  have hboth : AllFit σ ∧ (Few σ → Watched 0 σ) := by
    refine Reach.invariant (fun σ => AllFit σ ∧ (Few σ → Watched 0 σ)) ?_ ?_ h
    · rintro _ rfl
      exact ⟨nofun, fun _ => .init⟩
    · rintro s e s' ⟨hfit, hwatched⟩ - hs
      cases e with
      | command c =>
        obtain rfl := Option.some.inj hs
        exact ⟨allFit_kept.command hfit c, (watched_callsKeep 0).command hwatched c⟩
      | response script resp =>
        exact ⟨allFit_kept.responseHandle hfit hs, Watched.responseHandle hfit hwatched hs⟩
  exact hboth.2 hfew

/-- **Values.** As long as no rid is drawn twice, the handler of a subscription gets exactly the rows with its sid that
    come in from the subscription up to the response that closes a request to unsubscribe it, each once and in order. -/
theorem values_delivered (h : Reached σ) (hfew : σ.rids.length ≤ 2147483647) (s : Nat) :
    σ.log.filterMap (Obs.valueCallOf s) = (watch s σ.log).calls := (h.watched hfew).calls s

/-- A response of rid 0 with one row for the sid 1. -/
def valueResponse : Json :=
  .object [(cstr "rid", .integer 0), (cstr "updates", .array [.array [.integer 1, .bool true, .string []]])]

/-- A subscription, one value, the end of the subscription, and a value that comes too late. -/
def valueRun : List (Event Nat) :=
  [.command (.subscribe (cstr "/a") (some 7) 0), .response ⟨fun _ _ => [], fun _ s _ _ => [.unsubscribe s]⟩ valueResponse,
    .response ⟨fun _ _ => [], fun _ _ _ _ => []⟩ (.object [(cstr "rid", .integer 2), (cstr "stream", .string (cstr "closed"))]),
    .response ⟨fun _ _ => [], fun _ _ _ _ => []⟩ valueResponse]

theorem values_delivered_row : ∃ σ : State Nat,
    σ.log.filterMap (Obs.valueCallOf 1) = (watch 1 σ.log).calls ∧ (watch 1 σ.log).calls.length = 1 := by
  have heval : ((some init).bind (fun σ => runFrom step σ valueRun)).any
      (fun σ => decide (σ.rids.length ≤ 2147483647 ∧ (watch 1 σ.log).calls.length = 1)) = true := by decide
  obtain ⟨σ, hreach, hcheck⟩ := Reach.of_eval step (some init) valueRun _ heval
  obtain ⟨hfew, hcalls⟩ := of_decide_eq_true hcheck
  have hreached : Reached σ := hreach.of_init (fun _ h => (Option.some.inj h).symm)
  exact ⟨σ, values_delivered hreached hfew 1, hcalls⟩

end DSLink.Requester
