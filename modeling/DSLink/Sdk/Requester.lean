import DSLink.Lib.Cyclic
import DSLink.Lib.Run
import DSLink.Sdk.Responder

/-!
# `Sdk.Requester` — the requester of the SDK

`sdk/src/requester.c`, `sdk/src/msg/response_handler.c` and `dslink_ws_send_obj` of `sdk/src/ws.c`. A request leaves a
`RequestHolder` in `request_handlers` under its rid, a subscription its callback in `value_handlers` under its sid. The
response handler looks both up.

A callback of the application may call the requester again. What it does is a list of `Command`s, given by the
`Script` of the event. Every message that is sent can be dumped and queued.

## Contents
- `RequestHolder`, `State`, the functions of `requester.c` and `Command`.
- `dslinkResponseHandle`, `Event`, `step`.
- `Obs`: what a run shows. No function reads `log`.
-/

namespace DSLink.Requester

open Responder (u32)

/-! ## The state -/

/-- `request_handler_cb`: the one of `requester.c` that does nothing, or one of the application. -/
inductive RequestCb (κ : Type)
  | ignoreResponse
  | app (k : κ)

/-- `RequestHolder`. `sid` is not set by `dslink_requester_send_request`. -/
structure RequestHolder (κ : Type) where
  req : Json
  rid : Nat
  sid : Option Nat
  cb : Option (RequestCb κ)
  closeCb : Option (RequestCb κ)

/-- What a run shows, in order: a request that is sent, a subscription that is entered, a response that comes in, one
    row of rid 0, and the calls of callbacks of the application. -/
inductive Obs (κ : Type)
  | sent (rid : Nat) (req : Json) (cb : Option (RequestCb κ))
  | subscribed (sid : Nat) (cbs : Option κ)
  | received (resp : Json)
  | row (entry : Json)
  | called (rid : Nat) (k : κ) (resp : Json)
  | valueCalled (sid : Nat) (k : κ) (val ts : Option Json)

/-- `Requester` and `link->msg`, with the messages that were sent. `list_subs` and `open_streams` are not used. -/
structure State (κ : Type) where
  rid : Nat
  sid : Nat
  msg : Nat
  requestHandlers : AssocMap Nat (RequestHolder κ)
  valueHandlers : AssocMap Nat (Option κ)
  sent : List Json
  log : List (Obs κ)

variable {κ : Type}

/-- `dslink_init_requester`. -/
def init : State κ := ⟨0, 0, 0, .empty, .empty, [], []⟩

/-- `dslink_requester_incr_rid`. -/
def incrRid (rid : Nat) : Nat := (if 2147483647 ≤ rid then 0 else rid) + 1

/-- `dslink_requester_incr_sid`. -/
def incrSid (sid : Nat) : Nat := (if 2147483647 ≤ sid then 0 else sid) + 1

/-- `dslink_incr_msg`. -/
def incrMsg (msg : Nat) : Nat := (if 2147483647 ≤ msg then 0 else msg) + 1

/-- `json_object_set_nocheck` of a value that may be NULL. -/
def setOpt (j : Json) (key : CString) (value : Option Json) : Json := value.elim j (j.set key)

/-- An object with a method and a path. -/
def methodPath (method : String) (path : CString) : Json :=
  .object [(cstr "method", .string (cstr method)), (cstr "path", .string path)]

namespace State

/-- A run shows something. -/
def note (σ : State κ) (o : Obs κ) : State κ := { σ with log := σ.log ++ [o] }

/-! ## `requester.c` -/

/-- `dslink_ws_send_obj`. -/
def wsSendObj (σ : State κ) (obj : Json) : State κ :=
  let msg := incrMsg σ.msg
  { σ with msg, sent := σ.sent ++ [obj.set (cstr "msg") (.integer msg)] }

/-- A message with one request. -/
def sendTop (σ : State κ) (req : Json) : State κ :=
  σ.wsSendObj (.object [(cstr "requests", .array [req])])

/-- `dslink_requester_send_request`. What it returns is found under `rid`. -/
def sendRequest (σ : State κ) (req : Json) (cb : Option (RequestCb κ)) : State κ :=
  let rid := incrRid σ.rid
  let req := req.set (cstr "rid") (.integer rid)
  let holder : RequestHolder κ := ⟨req, rid, none, cb, some .ignoreResponse⟩
  let σ := { σ with rid, requestHandlers := σ.requestHandlers.set rid holder }
  (σ.note (.sent rid req cb)).sendTop req

/-- `holder->sid`, of the holder that was just entered. -/
def setHolderSid (σ : State κ) (sid : Nat) : State κ :=
  match σ.requestHandlers.get σ.rid with
  | none => σ
  | some holder => { σ with requestHandlers := σ.requestHandlers.set σ.rid { holder with sid := some sid } }

/-- `dslink_requester_list`. -/
def list (σ : State κ) (path : CString) (cb : Option (RequestCb κ)) : State κ :=
  σ.sendRequest (methodPath "list" path) cb

/-- `dslink_requester_subscribe2`. -/
def subscribe2 (σ : State κ) (path : CString) (cbs : Option κ) (qos : Int) (cb : Option (RequestCb κ)) : State κ :=
  let sid := incrSid σ.sid
  let obj : Json := .object
    [(cstr "path", .string path), (cstr "sid", .integer sid), (cstr "qos", .integer qos)]
  let json : Json := .object [(cstr "method", .string (cstr "subscribe")), (cstr "paths", .array [obj])]
  let σ := (State.sendRequest { σ with sid } json cb).setHolderSid sid
  State.note { σ with valueHandlers := σ.valueHandlers.set sid cbs } (.subscribed sid cbs)

/-- `dslink_requester_subscribe`. -/
def subscribe (σ : State κ) (path : CString) (cbs : Option κ) (qos : Int) : State κ :=
  σ.subscribe2 path cbs qos (some .ignoreResponse)

/-- `dslink_requester_set`. -/
def set (σ : State κ) (path : CString) (value : Option Json) : State κ :=
  σ.sendRequest (setOpt (methodPath "set" path) (cstr "value") value) (some .ignoreResponse)

/-- `dslink_requester_remove`. -/
def remove (σ : State κ) (path : CString) : State κ :=
  σ.sendRequest (methodPath "remove" path) (some .ignoreResponse)

/-- `dslink_requester_unsubscribe`. -/
def unsubscribe (σ : State κ) (sid : Nat) : State κ :=
  let json : Json := .object [(cstr "method", .string (cstr "unsubscribe")), (cstr "sids", .array [.integer sid])]
  (σ.sendRequest json (some .ignoreResponse)).setHolderSid sid

/-- `dslink_requester_invoke`. -/
def invoke (σ : State κ) (path : CString) (params : Option Json) (cb : Option (RequestCb κ)) : State κ :=
  σ.sendRequest (setOpt (methodPath "invoke" path) (cstr "params") params) cb

/-- `dslink_requester_invoke_update_params`. -/
def invokeUpdateParams (σ : State κ) (rid : Nat) (params : Option Json) : State κ :=
  σ.sendTop (setOpt (.object [(cstr "rid", .integer rid)]) (cstr "params") params)

/-- `dslink_requester_close`. -/
def close (σ : State κ) (rid : Nat) : State κ :=
  σ.sendTop (.object [(cstr "method", .string (cstr "close")), (cstr "rid", .integer rid)])

end State

/-- What an application calls. -/
inductive Command (κ : Type)
  | list (path : CString) (cb : Option (RequestCb κ))
  | subscribe (path : CString) (cbs : Option κ) (qos : Int)
  | subscribe2 (path : CString) (cbs : Option κ) (qos : Int) (cb : Option (RequestCb κ))
  | set (path : CString) (value : Option Json)
  | remove (path : CString)
  | unsubscribe (sid : Nat)
  | invoke (path : CString) (params : Option Json) (cb : Option (RequestCb κ))
  | invokeUpdateParams (rid : Nat) (params : Option Json)
  | close (rid : Nat)

/-- A call of the requester. -/
def command (σ : State κ) : Command κ → State κ
  | .list path cb => σ.list path cb
  | .subscribe path cbs qos => σ.subscribe path cbs qos
  | .subscribe2 path cbs qos cb => σ.subscribe2 path cbs qos cb
  | .set path value => σ.set path value
  | .remove path => σ.remove path
  | .unsubscribe sid => σ.unsubscribe sid
  | .invoke path params cb => σ.invoke path params cb
  | .invokeUpdateParams rid params => σ.invokeUpdateParams rid params
  | .close rid => σ.close rid

/-- What the callbacks of the application do: the calls that each call of a callback makes. -/
structure Script (κ : Type) where
  response : κ → Json → List (Command κ)
  value : κ → Nat → Option Json → Option Json → List (Command κ)

/-! ## `response_handler.c` -/

/-- `json_array_get`. -/
def arrayGet (j : Json) (i : Nat) : Option Json :=
  match j with
  | .array elems => elems[i]?
  | _ => none

/-- `(uint32_t) json_integer_value` of the rid of a response. -/
def ridOf (resp : Json) : Nat := u32 (resp.get (cstr "rid"))

/-- `(uint32_t) json_integer_value` of the first element of a row. -/
def sidOf (entry : Json) : Nat := u32 (arrayGet entry 0)

namespace State

/-- A callback of a request is called. -/
def runCb (script : Script κ) (σ : State κ) (rid : Nat) (resp : Json) : Option (RequestCb κ) → State κ
  | some (.app k) => (script.response k resp).foldl command (σ.note (.called rid k resp))
  | some .ignoreResponse => σ
  | none => σ

/-- One round of the loop over the updates. -/
def handleRow (script : Script κ) (σ : State κ) (entry : Json) : State κ :=
  let σ := σ.note (.row entry)
  let sid := sidOf entry
  let val := arrayGet entry 1
  let ts := arrayGet entry 2
  match σ.valueHandlers.get sid with
  | some (some k) => (script.value k sid val ts).foldl command (σ.note (.valueCalled sid k val ts))
  | _ => σ

/-- The rows of a response. -/
def updateRows (resp : Json) : List Json :=
  match resp.get (cstr "updates") with
  | some (.array rows) => rows
  | _ => []

/-- The removal of the value handler. `none`: the method is NULL, or a sid is read that was not set. -/
def dropValueHandler (σ : State κ) (holder : RequestHolder κ) : Option (State κ) := do
  let method ← (holder.req.get (cstr "method")).bind Json.stringValue
  if method = cstr "unsubscribe" then
    let sid ← holder.sid
    pure (if sid = 0 then σ else { σ with valueHandlers := σ.valueHandlers.erase sid })
  else pure σ

/-- The stream is closed. -/
def closeRequest (script : Script κ) (σ : State κ) (rid : Nat) (resp : Json) (holder : RequestHolder κ) :
    Option (State κ) := do
  let σ ← (σ.runCb script rid resp holder.closeCb).dropValueHandler holder
  let σ := σ.runCb script rid resp holder.cb
  pure { σ with requestHandlers := σ.requestHandlers.erase rid }

/-- `dslink_response_handle` behind the search for the holder. `none`: a NULL is compared. -/
def handleHolder (script : Script κ) (σ : State κ) (rid : Nat) (resp : Json) (holder : RequestHolder κ) :
    Option (State κ) :=
  match resp.get (cstr "stream") with
  | none => some (σ.runCb script rid resp holder.cb)
  | some status => do
    let stream ← status.stringValue
    if stream = cstr "closed" then σ.closeRequest script rid resp holder
    else pure (σ.runCb script rid resp holder.cb)

/-- `dslink_response_handle`. -/
def responseHandle (script : Script κ) (σ : State κ) (resp : Json) : Option (State κ) :=
  let σ := σ.note (.received resp)
  let rid := ridOf resp
  if rid = 0 then some ((updateRows resp).foldl (handleRow script) σ)
  else
    match σ.requestHandlers.get rid with
    | none => some σ
    | some holder => σ.handleHolder script rid resp holder

end State

/-- What happens next: the application calls the requester, or a response comes in. -/
inductive Event (κ : Type)
  | command (c : Command κ)
  | response (script : Script κ) (resp : Json)

/-- One event. -/
def step (σ : State κ) : Event κ → Option (State κ)
  | .command c => some (command σ c)
  | .response script resp => σ.responseHandle script resp

/-- The states of all runs. -/
def Reached : State κ → Prop := Reach step (fun _ _ => True) (· = init)

end DSLink.Requester
