import DSLink.Sdk.Requester

/-!
# `Sdk.Calls` — the calls of a requester

What a call of the requester does, said once (`command_cases`), and what the response handler does; from both the
rules for what holds in every run. The first results are about the numbers that are drawn and about the responses that
the handler survives.

## Contents
- `Sends`, `Subscribes`, `command_cases`, `responseHandle_cases`.
- `CallsKeep`, `Kept`, `Reached.kept`: what the parts of a step keep.
- `numbers_apart`: rids, sids and message numbers.
- `Proper`, `response_handled_iff`.
-/

namespace DSLink.Requester

open Responder (u32)

variable {κ : Type} {σ σ' τ : State κ} {req : Json} {cb : Option (RequestCb κ)} {held : Option Nat} {rid : Nat}

/-! ## What a call does -/

/-- The method of a request. -/
def methodOf (req : Json) : Option CString := (req.get (cstr "method")).bind Json.stringValue

/-- The sid that a request unsubscribes. -/
def unsubscribed (req : Json) : Option Nat :=
  if methodOf req = some (cstr "unsubscribe") then
    match req.get (cstr "sids") with
    | some (.array [.integer sid]) => some sid.toNat
    | _ => none
  else none

/-- A request has a method, and one that unsubscribes has its sid in the holder. -/
def Proper (req : Json) (held : Option Nat) : Prop :=
  ∃ method, methodOf req = some method ∧
    (method = cstr "unsubscribe" → ∃ s, held = some s ∧ unsubscribed req = some s)

/-- One message went out, with the next number. -/
structure Framed (σ σ' : State κ) : Prop where
  msg : σ'.msg = incrMsg σ.msg
  sent : ∃ obj, σ'.sent = σ.sent ++ [obj] ∧ u32 (obj.get (cstr "msg")) = incrMsg σ.msg

/-- A request went out and its holder was entered, with a sid that is set or not. -/
structure Sends (σ σ' : State κ) (req : Json) (cb : Option (RequestCb κ)) (held : Option Nat) : Prop where
  rid : σ'.rid = incrRid σ.rid
  sid : σ'.sid = σ.sid
  handlers : ∀ r, σ'.requestHandlers.get r =
    if r = incrRid σ.rid then some ⟨req, incrRid σ.rid, held, cb, some .ignoreResponse⟩ else σ.requestHandlers.get r
  values : σ'.valueHandlers = σ.valueHandlers
  log : σ'.log = σ.log ++ [.sent (incrRid σ.rid) req cb]
  framed : Framed σ σ'

theorem incrMsg_le (n : Nat) : incrMsg n ≤ 2147483647 := by
  unfold incrMsg
  split <;> omega

theorem u32_natCast {n : Nat} (h : n ≤ 2147483647) : u32 (some (.integer n)) = n := by
  show ((n : Int) % 4294967296).toNat = n
  omega

theorem wsSendObj_framed (σ : State κ) (members : Object) : Framed σ (σ.wsSendObj (.object members)) where
  msg := rfl
  sent := by
    refine ⟨_, rfl, ?_⟩
    rw [Json.get_set_self]
    exact u32_natCast (incrMsg_le _)

theorem sendRequest_sends (σ : State κ) (req : Json) (cb : Option (RequestCb κ)) :
    Sends σ (σ.sendRequest req cb) (req.set (cstr "rid") (.integer (incrRid σ.rid))) cb none where
  rid := rfl
  sid := rfl
  handlers r := AssocMap.get_set σ.requestHandlers _ r _
  values := rfl
  log := rfl
  framed := ⟨rfl, (wsSendObj_framed _ _).sent⟩

theorem Sends.setHolderSid (h : Sends σ σ' req cb held) (s : Nat) : Sends σ (σ'.setHolderSid s) req cb (some s) := by
  have hget : σ'.requestHandlers.get σ'.rid = some ⟨req, incrRid σ.rid, held, cb, some .ignoreResponse⟩ := by
    rw [h.handlers, if_pos h.rid]
  have heq : σ'.setHolderSid s = { σ' with
      requestHandlers := σ'.requestHandlers.set σ'.rid ⟨req, incrRid σ.rid, some s, cb, some .ignoreResponse⟩ } := by
    unfold State.setHolderSid
    rw [hget]
  rw [heq]
  refine ⟨h.rid, h.sid, fun r => ?_, h.values, h.log, h.framed.1, h.framed.2⟩
  show (AssocMap.set _ _ _).get r = _
  rw [AssocMap.get_set, h.rid, h.handlers]
  split <;> rfl

/-- A request with a method other than `unsubscribe`. -/
theorem Proper.of_method (method : CString) (h : methodOf req = some method) (hne : method ≠ cstr "unsubscribe") :
    Proper req held := ⟨method, h, fun he => absurd he hne⟩

theorem methodOf_set {key : CString} (value : Json) (h : cstr "method" ≠ key) :
    methodOf (req.set key value) = methodOf req := by
  unfold methodOf
  rw [Json.get_set_ne value h]

theorem methodOf_setOpt {key : CString} (value : Option Json) (h : cstr "method" ≠ key) :
    methodOf (setOpt req key value) = methodOf req := by
  cases value with
  | none => rfl
  | some value => exact methodOf_set value h

/-- The functions that pass a request on as it is. -/
theorem sendRequest_proper {method : CString} (σ : State κ) (req : Json) (cb : Option (RequestCb κ))
    (h : methodOf req = some method) (hne : method ≠ cstr "unsubscribe") :
    ∃ req', Proper req' none ∧ Sends σ (σ.sendRequest req cb) req' cb none := by
  refine ⟨_, .of_method method ?_ hne, sendRequest_sends σ req cb⟩
  rw [methodOf_set _ (by decide), h]

/-- A subscription: the request, and then the value handler. -/
structure Subscribes (σ σ' : State κ) (cbs : Option κ) : Prop where
  sid : σ'.sid = incrSid σ.sid
  sends : ∃ τ req cb held, Proper req held ∧ Sends { σ with sid := incrSid σ.sid } τ req cb held ∧
    σ' = State.note { τ with valueHandlers := τ.valueHandlers.set (incrSid σ.sid) cbs } (.subscribed (incrSid σ.sid) cbs)

theorem subscribe2_subscribes (σ : State κ) (path : CString) (cbs : Option κ) (qos : Int)
    (cb : Option (RequestCb κ)) : Subscribes σ (σ.subscribe2 path cbs qos cb) cbs := by
  have hsends := sendRequest_sends { σ with sid := incrSid σ.sid } (.object
    [(cstr "method", .string (cstr "subscribe")), (cstr "paths", .array [.object
      [(cstr "path", .string path), (cstr "sid", .integer (incrSid σ.sid)), (cstr "qos", .integer qos)]])]) cb
  refine ⟨(hsends.setHolderSid (incrSid σ.sid)).sid, _, _, _, _, ?_, hsends.setHolderSid (incrSid σ.sid), rfl⟩
  refine .of_method (cstr "subscribe") ?_ (by decide)
  rw [methodOf_set _ (by decide)]
  rfl

theorem unsubscribe_sends (σ : State κ) (s : Nat) :
    ∃ req, Proper req (some s) ∧ Sends σ (σ.unsubscribe s) req (some .ignoreResponse) (some s) := by
  refine ⟨_, ⟨cstr "unsubscribe", ?_, fun _ => ⟨s, rfl, ?_⟩⟩, (sendRequest_sends σ _ _).setHolderSid s⟩
  · rw [methodOf_set _ (by decide)]
    rfl
  · unfold unsubscribed
    rw [methodOf_set _ (by decide), if_pos (by rfl), Json.get_set_ne _ (by decide)]
    rfl

/-- A call of the requester sends a message that is no request of its own, sends a request, or subscribes. -/
theorem command_cases (σ : State κ) (c : Command κ) :
    (∃ members, command σ c = σ.wsSendObj (.object members)) ∨
    (∃ req cb held, Proper req held ∧ Sends σ (command σ c) req cb held) ∨
    (∃ cbs, Subscribes σ (command σ c) cbs) := by
  cases c with
  | list path cb =>
    obtain ⟨req, h⟩ := sendRequest_proper σ (methodPath "list" path) cb rfl (by decide)
    exact .inr (.inl ⟨req, cb, none, h⟩)
  | subscribe path cbs qos => exact .inr (.inr ⟨cbs, subscribe2_subscribes σ path cbs qos _⟩)
  | subscribe2 path cbs qos cb => exact .inr (.inr ⟨cbs, subscribe2_subscribes σ path cbs qos cb⟩)
  | set path value =>
    obtain ⟨req, h⟩ := sendRequest_proper σ (setOpt (methodPath "set" path) (cstr "value") value)
      (some .ignoreResponse) (methodOf_setOpt value (by decide)) (by decide)
    exact .inr (.inl ⟨req, _, none, h⟩)
  | remove path =>
    obtain ⟨req, h⟩ := sendRequest_proper σ (methodPath "remove" path) (some .ignoreResponse) rfl (by decide)
    exact .inr (.inl ⟨req, _, none, h⟩)
  | unsubscribe s =>
    obtain ⟨req, h⟩ := unsubscribe_sends σ s
    exact .inr (.inl ⟨req, _, some s, h⟩)
  | invoke path params cb =>
    obtain ⟨req, h⟩ := sendRequest_proper σ (setOpt (methodPath "invoke" path) (cstr "params") params) cb
      (methodOf_setOpt params (by decide)) (by decide)
    exact .inr (.inl ⟨req, cb, none, h⟩)
  | invokeUpdateParams rid params => exact .inl ⟨_, rfl⟩
  | close rid => exact .inl ⟨_, rfl⟩

/-! ## What every change keeps -/

/-- A response or a row comes in, or a callback is called. -/
def Obs.IsIncoming : Obs κ → Prop
  | .sent _ _ _ => False
  | .subscribed _ _ => False
  | _ => True

/-- The calls of the requester keep `P`. -/
structure CallsKeep (P : State κ → Prop) : Prop where
  frame : ∀ σ members, P σ → P (σ.wsSendObj (.object members))
  sends : ∀ σ σ' req cb held, Proper req held → Sends σ σ' req cb held → P σ → P σ'
  subscribes : ∀ σ σ' cbs, Subscribes σ σ' cbs → P σ → P σ'

/-- The changes that a step is made of keep `P`. -/
structure Kept (P : State κ → Prop) : Prop extends CallsKeep P where
  incoming : ∀ (σ : State κ) o, o.IsIncoming → P σ → P (σ.note o)
  dropValue : ∀ (σ : State κ) sid, P σ → P { σ with valueHandlers := σ.valueHandlers.erase sid }
  dropRequest : ∀ (σ : State κ) rid, P σ → P { σ with requestHandlers := σ.requestHandlers.erase rid }

variable {P : State κ → Prop} {script : Script κ} {resp : Json}

theorem CallsKeep.command (hk : CallsKeep P) (h : P σ) (c : Command κ) : P (command σ c) := by
  obtain ⟨members, heq⟩ | ⟨req, cb, held, hreq, hs⟩ | ⟨cbs, hs⟩ := command_cases σ c
  · exact heq ▸ hk.frame σ members h
  · exact hk.sends _ _ _ _ _ hreq hs h
  · exact hk.subscribes _ _ _ hs h

theorem CallsKeep.commands (hk : CallsKeep P) (h : P σ) (cs : List (Command κ)) : P (cs.foldl Requester.command σ) :=
  List.foldlRecOn cs Requester.command h (fun _ hσ c _ => hk.command hσ c)

/-- The call of a callback is shown. -/
def noteCall (σ : State κ) (rid : Nat) (resp : Json) : Option (RequestCb κ) → State κ
  | some (.app k) => σ.note (.called rid k resp)
  | _ => σ

/-- What a callback does. -/
def callsMade (script : Script κ) (resp : Json) : Option (RequestCb κ) → List (Command κ)
  | some (.app k) => script.response k resp
  | _ => []

theorem runCb_eq (script : Script κ) (σ : State κ) (rid : Nat) (resp : Json) (cb : Option (RequestCb κ)) :
    σ.runCb script rid resp cb = (callsMade script resp cb).foldl command (noteCall σ rid resp cb) := by
  rcases cb with _ | (_ | k) <;> rfl

theorem Kept.runCb (hk : Kept P) (h : P σ) (rid : Nat) (resp : Json) (cb : Option (RequestCb κ)) :
    P (σ.runCb script rid resp cb) := by
  rw [runCb_eq]
  refine hk.commands ?_ _
  rcases cb with _ | (_ | k)
  · exact h
  · exact h
  · exact hk.incoming σ (.called rid k resp) trivial h

/-- A row goes to the value handler of its sid, if there is one with a callback. -/
theorem handleRow_cases (script : Script κ) (σ : State κ) (entry : Json) :
    let sid := sidOf entry
    let val := arrayGet entry 1
    let ts := arrayGet entry 2
    ((∀ k, σ.valueHandlers.get sid ≠ some (some k)) ∧ σ.handleRow script entry = σ.note (.row entry)) ∨
    (∃ k, σ.valueHandlers.get sid = some (some k) ∧ σ.handleRow script entry =
      (script.value k sid val ts).foldl Requester.command
        ((σ.note (.row entry)).note (.valueCalled sid k val ts))) := by
  intro sid val ts
  have hnote : (σ.note (.row entry)).valueHandlers.get sid = σ.valueHandlers.get sid := rfl
  unfold State.handleRow
  match hget : σ.valueHandlers.get sid with
  | none => exact .inl ⟨nofun, by simp only [hnote, sid, hget]⟩
  | some none => exact .inl ⟨nofun, by simp only [hnote, sid, hget]⟩
  | some (some k) => exact .inr ⟨k, rfl, by simp only [hnote, sid, hget]; rfl⟩

theorem Kept.handleRow (hk : Kept P) (h : P σ) (entry : Json) : P (σ.handleRow script entry) := by
  have hrow := hk.incoming σ (.row entry) trivial h
  obtain ⟨-, heq⟩ | ⟨k, -, heq⟩ := handleRow_cases script σ entry
  · exact heq ▸ hrow
  · exact heq ▸ hk.commands (hk.incoming _ (.valueCalled _ k _ _) trivial hrow) _

theorem Kept.dropValueHandler {holder : RequestHolder κ} (hk : Kept P) (h : P σ)
    (hs : σ.dropValueHandler holder = some σ') : P σ' := by
  unfold State.dropValueHandler at hs
  obtain ⟨method, -, hs⟩ := Option.bind_eq_some_iff.mp hs
  split at hs
  · obtain ⟨sid, -, hs⟩ := Option.bind_eq_some_iff.mp hs
    obtain rfl := Option.some.inj hs
    split
    · exact h
    · exact hk.dropValue σ sid h
  · exact Option.some.inj hs ▸ h

theorem handleHolder_closed (holder : RequestHolder κ)
    (h : resp.get (cstr "stream") = some (.string (cstr "closed"))) :
    σ.handleHolder script rid resp holder = σ.closeRequest script rid resp holder := by
  unfold State.handleHolder
  rw [h]
  rfl

/-- What does not close the stream goes to the callback, if it says a string or nothing about the stream. -/
theorem handleHolder_open (holder : RequestHolder κ)
    (h : resp.get (cstr "stream") ≠ some (.string (cstr "closed"))) :
    σ.handleHolder script rid resp holder =
      if ∀ status ∈ resp.get (cstr "stream"), status.stringValue.isSome then some (σ.runCb script rid resp holder.cb)
      else none := by
  unfold State.handleHolder
  cases hstream : resp.get (cstr "stream") with
  | none => rw [if_pos nofun]
  | some status =>
    cases status with
    | string stream =>
      have hne : stream ≠ cstr "closed" := fun he => h (by rw [hstream, he])
      rw [if_pos (by rintro _ ⟨⟩; rfl)]
      exact if_neg hne
    | _ => exact (if_neg (fun h => Bool.noConfusion (h _ rfl))).symm

/-- The ways through `dslink_response_handle`, with the state behind the first note. -/
theorem responseHandle_cases (h : σ.responseHandle script resp = some σ') :
    let τ := σ.note (.received resp)
    let rid := ridOf resp
    (rid = 0 ∧ σ' = (State.updateRows resp).foldl (State.handleRow script) τ) ∨
    (rid ≠ 0 ∧ σ.requestHandlers.get rid = none ∧ σ' = τ) ∨
    (∃ holder, rid ≠ 0 ∧ σ.requestHandlers.get rid = some holder ∧
      resp.get (cstr "stream") ≠ some (.string (cstr "closed")) ∧ σ' = τ.runCb script rid resp holder.cb) ∨
    (∃ holder, rid ≠ 0 ∧ σ.requestHandlers.get rid = some holder ∧
      resp.get (cstr "stream") = some (.string (cstr "closed")) ∧
      τ.closeRequest script rid resp holder = some σ') := by
  intro τ rid
  have hnote : (σ.note (.received resp)).requestHandlers = σ.requestHandlers := rfl
  by_cases hrid : rid = 0
  · rw [State.responseHandle, if_pos hrid] at h
    exact .inl ⟨hrid, (Option.some.inj h).symm⟩
  rw [State.responseHandle, if_neg hrid, hnote] at h
  right
  cases hget : σ.requestHandlers.get rid with
  | none =>
    rw [hget] at h
    exact .inl ⟨hrid, rfl, (Option.some.inj h).symm⟩
  | some holder =>
    rw [hget] at h
    right
    have h : τ.handleHolder script rid resp holder = some σ' := h
    by_cases hclosed : resp.get (cstr "stream") = some (.string (cstr "closed"))
    · rw [handleHolder_closed holder hclosed] at h
      exact .inr ⟨holder, hrid, rfl, hclosed, h⟩
    · rw [handleHolder_open holder hclosed] at h
      split at h
      · exact .inl ⟨holder, hrid, rfl, hclosed, (Option.some.inj h).symm⟩
      · cases h

theorem closeRequest_eq_some {holder : RequestHolder κ} (h : σ.closeRequest script rid resp holder = some σ') :
    ∃ τ, (σ.runCb script rid resp holder.closeCb).dropValueHandler holder = some τ ∧
      σ' = { τ.runCb script rid resp holder.cb with
        requestHandlers := (τ.runCb script rid resp holder.cb).requestHandlers.erase rid } := by
  obtain ⟨τ, hτ, h⟩ := Option.bind_eq_some_iff.mp h
  exact ⟨τ, hτ, (Option.some.inj h).symm⟩

theorem Kept.responseHandle (hk : Kept P) (h : P σ) (hs : σ.responseHandle script resp = some σ') : P σ' := by
  have hτ := hk.incoming σ (.received resp) trivial h
  obtain ⟨-, rfl⟩ | ⟨-, -, rfl⟩ | ⟨holder, -, -, -, rfl⟩ | ⟨holder, -, -, -, hclose⟩ := responseHandle_cases hs
  · exact List.foldlRecOn _ _ hτ (fun _ hσ entry _ => hk.handleRow hσ entry)
  · exact hτ
  · exact hk.runCb hτ _ _ _
  · obtain ⟨τ, hdrop, rfl⟩ := closeRequest_eq_some hclose
    exact hk.dropRequest _ _ (hk.runCb (hk.dropValueHandler (hk.runCb hτ _ _ _) hdrop) _ _ _)

/-- What the first state has and every change keeps holds in every run. -/
theorem Reached.kept (h : Reached σ) (hk : Kept P) (h0 : P init) : P σ := by
  refine Reach.invariant P ?_ (fun s e s' hP _ hs => ?_) h
  · rintro _ rfl
    exact h0
  cases e with
  | command c => exact Option.some.inj hs ▸ hk.command hP c
  | response script resp => exact hk.responseHandle hP hs

/-! ## Numbers -/

/-- The rid of a request that is sent. -/
def Obs.drawnRid : Obs κ → Option Nat
  | .sent rid _ _ => some rid
  | _ => none

/-- The sid of a subscription. -/
def Obs.drawnSid : Obs κ → Option Nat
  | .subscribed sid _ => some sid
  | _ => none

namespace State

/-- The rids of the requests, in the order in which they were sent. -/
def rids (σ : State κ) : List Nat := σ.log.filterMap Obs.drawnRid

/-- The sids of the subscriptions. -/
def sids (σ : State κ) : List Nat := σ.log.filterMap Obs.drawnSid

/-- The numbers of the messages. -/
def msgs (σ : State κ) : List Nat := σ.sent.map (fun obj => u32 (obj.get (cstr "msg")))

end State

/-- `l` was drawn from the counter, which is at `n`. -/
def Drawn (n : Nat) (l : List Nat) : Prop := Cyclic.IsCycle 2147483647 l ∧ Cyclic.counter l = n

/-- The three counters. -/
structure Numbered (σ : State κ) : Prop where
  rids : Drawn σ.rid σ.rids
  sids : Drawn σ.sid σ.sids
  msgs : Drawn σ.msg σ.msgs

theorem Drawn.draw {n : Nat} {l : List Nat} (h : Drawn n l) :
    Drawn (Cyclic.next 2147483647 n) (l ++ [Cyclic.next 2147483647 n]) := by
  obtain ⟨hl, rfl⟩ := h
  exact ⟨hl.draw (by decide), Cyclic.counter_draw _⟩

theorem Framed.msgs (h : Framed σ σ') (hm : Drawn σ.msg σ.msgs) : Drawn σ'.msg σ'.msgs := by
  obtain ⟨obj, hsent, hobj⟩ := h.sent
  have hmsgs : σ'.msgs = σ.msgs ++ [incrMsg σ.msg] := by
    simp only [State.msgs, hsent, List.map_append, List.map_cons, List.map_nil, hobj]
  rw [hmsgs, h.msg]
  exact hm.draw

theorem rids_append {log : List (Obs κ)} {o : Obs κ} (h : σ'.log = log ++ [o]) :
    σ'.rids = log.filterMap Obs.drawnRid ++ (Obs.drawnRid o).toList := by
  rw [State.rids, h, List.filterMap_append]
  cases ho : o.drawnRid <;> simp [ho]

theorem sids_append {log : List (Obs κ)} {o : Obs κ} (h : σ'.log = log ++ [o]) :
    σ'.sids = log.filterMap Obs.drawnSid ++ (Obs.drawnSid o).toList := by
  rw [State.sids, h, List.filterMap_append]
  cases ho : o.drawnSid <;> simp [ho]

theorem Sends.rids (h : Sends σ σ' req cb held) : σ'.rids = σ.rids ++ [incrRid σ.rid] := rids_append h.log

theorem Sends.sids (h : Sends σ σ' req cb held) : σ'.sids = σ.sids := by
  rw [sids_append h.log]
  exact List.append_nil _

theorem rids_incoming {o : Obs κ} (ho : o.IsIncoming) : (σ.note o).rids = σ.rids := by
  rw [rids_append rfl]
  cases o <;> first | exact ho.elim | exact List.append_nil _

theorem Sends.numbered (h : Sends σ σ' req cb held) (hrids : Drawn σ.rid σ.rids) (hmsgs : Drawn σ.msg σ.msgs) :
    Drawn σ'.rid σ'.rids ∧ Drawn σ'.msg σ'.msgs := by
  refine ⟨?_, h.framed.msgs hmsgs⟩
  rw [h.rids, h.rid]
  exact hrids.draw

/-- Numbers from 1 on, and those that are near each other are different. -/
structure Apart (l : List Nat) : Prop where
  bounds : ∀ n ∈ l, 0 < n ∧ n ≤ 2147483647
  apart : ∀ i j, i < j → ∀ (hi : i < l.length) (hj : j < l.length), j - i < 2147483647 → l[i] ≠ l[j]

theorem Drawn.apart {n : Nat} {l : List Nat} (h : Drawn n l) : Apart l where
  bounds n hn := h.1.bounds (by decide) hn
  apart i j hij hi hj hlt := h.1.apart hij hi hj hlt

/-- A request and a subscription. -/
def twoCalls : State Nat := command (command init (.remove (cstr "/a"))) (.subscribe (cstr "/b") none 0)

theorem twoCalls_reached : Reached twoCalls := .next (e := .command (.subscribe (cstr "/b") none 0))
  (.next (e := .command (.remove (cstr "/a"))) (.start rfl) trivial rfl) trivial rfl

/-- What a holder has. -/
structure Fit (holder : RequestHolder κ) : Prop where
  proper : Proper holder.req holder.sid
  closeCb : holder.closeCb = some .ignoreResponse

/-- Every open request has a fit holder. -/
def AllFit (σ : State κ) : Prop := ∀ r holder, σ.requestHandlers.get r = some holder → Fit holder

theorem Sends.allFit (hs : Sends σ σ' req cb held) (hreq : Proper req held) (h : AllFit σ) : AllFit σ' := by
  intro r holder hget
  rw [hs.handlers] at hget
  split at hget
  · exact Option.some.inj hget ▸ ⟨hreq, rfl⟩
  · exact h r holder hget

theorem allFit_kept : Kept (AllFit (κ := κ)) where
  frame σ members h := h
  sends σ σ' req cb held hreq hs h := hs.allFit hreq h
  subscribes σ σ' cbs hs h := by
    obtain ⟨τ, req, cb, held, hreq, hτ, rfl⟩ := hs.sends
    exact hτ.allFit hreq h
  incoming σ o _ h := h
  dropValue σ sid h := h
  dropRequest σ rid h := by
    intro r holder hget
    exact h r holder (AssocMap.get_erase_eq_some.mp hget).2

theorem dropValueHandler_isSome {holder : RequestHolder κ} (hfit : Fit holder) :
    (σ.dropValueHandler holder).isSome := by
  obtain ⟨method, hmethod, hheld⟩ := hfit.proper
  have hmethod : (holder.req.get (cstr "method")).bind Json.stringValue = some method := hmethod
  unfold State.dropValueHandler
  rw [hmethod]
  by_cases hunsub : method = cstr "unsubscribe"
  · obtain ⟨s, hs, -⟩ := hheld hunsub
    simp [hunsub, hs]
  · simp [hunsub]

/-- **No response is lost in a crash but one.** In every run `dslink_response_handle` returns for every response and
    every behaviour of the callbacks, except where an open request gets a `stream` that is no string. -/
theorem response_handled_iff (h : Reached σ) (script : Script κ) (resp : Json) :
    (σ.responseHandle script resp).isSome ↔
      (σ.requestHandlers.get (ridOf resp)).isSome → ridOf resp ≠ 0 →
        ∀ status ∈ resp.get (cstr "stream"), status.stringValue.isSome := by
  have hfit : AllFit σ := h.kept allFit_kept nofun
  have hnote : (σ.note (.received resp)).requestHandlers = σ.requestHandlers := rfl
  by_cases hrid : ridOf resp = 0
  · rw [State.responseHandle, if_pos hrid]
    exact iff_of_true rfl (fun _ hne => absurd hrid hne)
  rw [State.responseHandle, if_neg hrid, hnote]
  cases hget : σ.requestHandlers.get (ridOf resp) with
  | none => exact iff_of_true rfl nofun
  | some holder =>
    show (State.handleHolder _ _ _ _ _).isSome ↔ _
    by_cases hclosed : resp.get (cstr "stream") = some (.string (cstr "closed"))
    · have hdrop := dropValueHandler_isSome (σ := (σ.note (.received resp)).runCb script
        (ridOf resp) resp holder.closeCb) (hfit _ holder hget)
      obtain ⟨τ, hτ⟩ := Option.isSome_iff_exists.mp hdrop
      rw [handleHolder_closed holder hclosed, State.closeRequest, hτ, hclosed]
      exact iff_of_true rfl (by rintro - - _ ⟨⟩; rfl)
    · rw [handleHolder_open holder hclosed]
      simp only [Option.isSome_some, forall_true_left, ne_eq, hrid, not_false_eq_true]
      split
      · exact iff_of_true rfl ‹_›
      · exact iff_of_false nofun ‹_›

/-- A response to the first request that says null about its stream. -/
def nullStream : Json := .object [(cstr "rid", .integer 1), (cstr "stream", .null)]

theorem response_handled_null : ¬(twoCalls.responseHandle ⟨fun _ _ => [], fun _ _ _ _ => []⟩ nullStream).isSome := by
  rw [response_handled_iff twoCalls_reached]
  intro h
  have hstatus := h (by decide) (by decide) .null rfl
  exact absurd hstatus (by decide)

end DSLink.Requester
