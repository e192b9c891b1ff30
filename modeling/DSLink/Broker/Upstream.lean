import DSLink.Lib.Heap
import DSLink.Lib.Run

/-!
# `Broker.Upstream` — the connection to an upstream broker

`upstream/upstream_handshake.c`: an `UpstreamPoll` goes from a timer that waits for the next attempt to a check of the
connection, to the answer of the `/conn` request and to the web socket, and back to a timer when anything fails. Each
time one handle of the loop is what calls it again. Handles, sockets and links are allocated and freed; a handle that
is closed is freed.

What the network, the peer and the libraries do is given by the event. Allocations succeed. The fields of the link and
of the node that other parts of the broker use are left out.

## Contents
- `UpstreamPoll`, `State`, the functions of `upstream_handshake.c`.
- `Round`, `Event`, `step`.
-/

namespace DSLink.Upstream

/-- `UpstreamPollStatus`. -/
inductive Status
  | none
  | conn
  | connCheck
  | ws
  deriving DecidableEq

/-- The callback of a handle: `upstrem_handle_reconnect`, `upstream_check_conn`, `connect_conn_callback`,
    `upstream_io_handler` and `dslink_handle_ping`. -/
inductive Use
  | reconnect
  | connCheck
  | conn
  | ws
  | ping
  deriving DecidableEq

/-- `uv_timer_t` or `uv_poll_t`. A timer that does not repeat is inactive once it has fired. -/
structure Handle where
  use : Use
  active : Bool
  data : Nat

/-- `Client`. -/
structure Client where
  sock : Nat
  poll : Option Nat

/-- `RemoteDSLink`. -/
structure RemoteDSLink where
  client : Option Client
  pingTimerHandle : Option Nat
  pendingClose : Bool

/-- `UpstreamPoll`. The address list, the client link and the web socket are only there or not. -/
structure UpstreamPoll where
  status : Status
  connPoll : Option Nat
  connCheckTimer : Option Nat
  conCheckAddrList : Bool
  wsPoll : Option Nat
  reconnectInterval : Nat
  reconnectTimer : Option Nat
  remoteDSLink : Option Nat
  clientDslink : Bool
  sock : Option Nat
  ws : Bool

/-- The objects, with `upstreamPoll` of the node. A socket is its descriptor, open or not. `left` are the sockets of
    connects that failed at once with their descriptor open; no function reads it. -/
structure State where
  handle : Heap Handle
  sock : Heap Bool
  link : Heap RemoteDSLink
  poll : Heap UpstreamPoll
  upstreamPoll : Option Nat
  left : List Nat

/-- Before the first upstream connection. -/
def State.init : State := ⟨.empty, .empty, .empty, .empty, none, []⟩

namespace State

variable (σ : State)

/-- A handle is made and started. -/
def uvStart (x : Handle) : State := { σ with handle := σ.handle.alloc x }

/-- `uv_close` of what may be NULL. -/
def uvClose : Option Nat → Option State
  | none => some σ
  | some h => (σ.handle.get h).map fun _ => { σ with handle := σ.handle.free h }

/-- `dslink_socket_close_nofree`. -/
def closeNofree : Option Nat → Option State
  | none => some σ
  | some s => (σ.sock.get s).map fun _ => { σ with sock := σ.sock.put s false }

/-- `dslink_socket_free`. -/
def socketFree : Option Nat → Option State
  | none => some σ
  | some s => (σ.sock.get s).map fun _ => { σ with sock := σ.sock.free s }

/-- The block of `broker_close_link` on the client. -/
def closeClient : Option Client → Option State
  | none => some σ
  | some client => (σ.uvClose client.poll).bind fun σ => σ.closeNofree (some client.sock)

/-- `broker_close_link`. -/
def brokerCloseLink : Option Nat → Option State
  | none => some σ
  | some l => do
    let link ← σ.link.get l
    let σ ← σ.closeClient link.client
    let σ ← σ.uvClose link.pingTimerHandle
    some { σ with link := σ.link.free l }

/-- The first block of `upstream_clear_poll`: what is closed depends on the status. -/
def clearStatus (p : UpstreamPoll) : Option State :=
  match p.status with
  | .conn | .connCheck => do
    let σ ← σ.uvClose p.connPoll
    let σ ← σ.uvClose p.connCheckTimer
    let σ ← σ.closeNofree p.sock
    σ.socketFree p.sock
  | .ws => do
    let h ← p.wsPoll
    let σ ← σ.uvClose (some h)
    let l ← p.remoteDSLink
    let link ← σ.link.get l
    let client ← link.client
    some { σ with link := σ.link.put l { link with client := some { client with poll := none } } }
  | .none => some σ

/-- `upstream_clear_poll`. `connPoll` and `wsPoll` keep what they pointed to. -/
def upstreamClearPoll (p : UpstreamPoll) : Option (State × UpstreamPoll) := do
  let σ ← σ.clearStatus p
  let σ ← σ.uvClose p.reconnectTimer
  let σ ← σ.brokerCloseLink p.remoteDSLink
  some (σ, { p with
    status := .none
    connCheckTimer := if p.status = .conn ∨ p.status = .connCheck then none else p.connCheckTimer
    reconnectTimer := none
    conCheckAddrList := false
    clientDslink := false
    remoteDSLink := none
    sock := none
    ws := false })

/-- `upstream_reconnect` of the poll at `u`. -/
def upstreamReconnect (u : Nat) (p : UpstreamPoll) : Option (State × UpstreamPoll) := do
  let (σ, p) ← σ.upstreamClearPoll p
  let reconnectInterval := if p.reconnectInterval < 60 then p.reconnectInterval + 1 else p.reconnectInterval
  some (σ.uvStart ⟨.reconnect, true, u⟩, { p with reconnectInterval, reconnectTimer := some σ.handle.next })

end State

/-- What `dslink_socket_connect_async` comes to. A failure may leave the descriptor open, and for a secure socket the
    address list is set by then. -/
inductive Connect
  | started
  | failed (opened addrs : Bool)

/-- The descriptor that is left open by it. -/
def Connect.open : Connect → Bool
  | .started => true
  | .failed opened _ => opened

/-- What `connect_conn_callback` reads: an error, no JSON object (with what a move to another place says), a response
    without one of the parameters, and a complete one, with what `dslink_handshake_connect_ws` comes to. -/
inductive Answer
  | readError
  | noHandshake
  | moved (location http : Bool)
  | missing
  | wsRefused
  | accepted
  deriving DecidableEq

/-- What `wslay_event_recv` or `wslay_event_send` returns, and whether `pendingClose` of the link is set then. -/
structure Stat where
  failed : Bool
  pendingClose : Bool

namespace State

variable (σ : State)

/-- `upstream_connect_conn`. -/
def upstreamConnectConn (u : Nat) (c : Connect) (p : UpstreamPoll) : Option (State × UpstreamPoll) :=
  let p := { p with remoteDSLink := some σ.link.next, clientDslink := true, sock := some σ.sock.next }
  let σ := { σ with link := σ.link.alloc ⟨none, none, false⟩, sock := σ.sock.alloc c.open }
  match c with
  | .failed opened addrs =>
    let left := if opened then σ.left ++ p.sock.toList else σ.left
    { σ with left }.upstreamReconnect u { p with conCheckAddrList := addrs }
  | .started =>
    some (σ.uvStart ⟨.connCheck, true, u⟩,
      { p with status := .connCheck, conCheckAddrList := true, connCheckTimer := some σ.handle.next })

/-- `upstream_check_conn`. `connectConnCheck` reads the socket and the address list. -/
def upstreamCheckConn (u : Nat) (connected written : Bool) (p : UpstreamPoll) : Option (State × UpstreamPoll) := do
  let σ ← σ.uvClose p.connCheckTimer
  let p := { p with connCheckTimer := none }
  let s ← p.sock
  let _ ← σ.sock.get s
  if ¬p.conCheckAddrList then none
  else if ¬connected then σ.upstreamReconnect u p
  else
    let p := { p with status := .conn }
    if ¬p.clientDslink then none
    else if ¬written then σ.upstreamReconnect u p
    else some (σ.uvStart ⟨.conn, true, u⟩, { p with connPoll := some σ.handle.next })

/-- `upstream_handshake_handle_ws`, with `init_upstream_node`. -/
def handleWs (u : Nat) (s : Nat) (p : UpstreamPoll) : Option (State × UpstreamPoll) :=
  match p.remoteDSLink with
  | none => some (σ, p)
  | some l => do
    let link ← σ.link.get l
    let h := σ.handle.next
    let σ := (σ.uvStart ⟨.ws, true, u⟩).uvStart ⟨.ping, true, l⟩
    let link := { link with client := some ⟨s, some h⟩, pingTimerHandle := some (h + 1) }
    some ({ σ with link := σ.link.put l link }, { p with wsPoll := some h, ws := true })

/-- The end of `connect_conn_callback`, for a response with a JSON object. -/
def handleHandshake (u : Nat) (a : Answer) (p : UpstreamPoll) : Option (State × UpstreamPoll) :=
  match a with
  | .missing => some (σ, p)
  | .wsRefused => if p.clientDslink then σ.upstreamReconnect u p else none
  | _ =>
    if p.clientDslink then do
      let s := σ.sock.next
      let σ := { σ with sock := σ.sock.alloc true }
      let (σ, p) ← σ.handleWs u s { p with sock := some s }
      some (σ, { p with status := .ws, reconnectInterval := 0 })
    else none

/-- `connect_conn_callback` of the handle `h`. A location without an address is searched in a NULL. -/
def connectConnCallback (u h : Nat) (a : Answer) (p : UpstreamPoll) : Option (State × UpstreamPoll) := do
  let σ ← σ.uvClose (some h)
  let p := { p with connPoll := none }
  let s ← p.sock
  let _ ← σ.sock.get s
  if a = .readError then σ.upstreamReconnect u p
  else if a = .moved true false then none
  else
    let σ ← σ.closeNofree p.sock
    let σ ← σ.socketFree p.sock
    let p := { p with sock := none }
    match a with
    | .missing | .wsRefused | .accepted => σ.handleHandshake u a p
    | _ => σ.upstreamReconnect u { p with status := .none }

/-- `reconnect_if_error_occured`. Without an error it reads the link. -/
def reconnectIfErrorOccured (u : Nat) (failed : Bool) (p : UpstreamPoll) : Option (State × UpstreamPoll) :=
  if failed then σ.upstreamReconnect u p
  else do
    let l ← p.remoteDSLink
    let link ← σ.link.get l
    if link.pendingClose then σ.upstreamReconnect u p else some (σ, p)

/-- `wslay_event_recv` or `wslay_event_send` sets `pendingClose`. -/
def setPending (stat : Stat) (p : UpstreamPoll) : Option State := do
  let l ← p.remoteDSLink
  let link ← σ.link.get l
  some { σ with link := σ.link.put l { link with pendingClose := link.pendingClose || stat.pendingClose } }

/-- One call of wslay, with the test behind it. The web socket is read. -/
def wslayCall (u : Nat) (stat : Stat) (p : UpstreamPoll) : Option (State × UpstreamPoll) :=
  if p.ws then do
    let σ ← σ.setPending stat p
    σ.reconnectIfErrorOccured u stat.failed p
  else none

/-- The second half of `upstream_io_handler`; `uv_poll_start` is on the handle `h`. -/
def ioWrite (u h : Nat) (send : Option Stat) (p : UpstreamPoll) : Option (State × UpstreamPoll) :=
  if p.ws then do
    let _ ← σ.handle.get h
    match send with
    | some stat => σ.wslayCall u stat p
    | none => some (σ, p)
  else none

/-- `upstream_io_handler` of the handle `h`. `read` is there if the handle is readable. `write` is there if it is
    writable, and in it what is sent, if wslay wants to write. -/
def upstreamIoHandler (u h : Nat) (failed : Bool) (read : Option Stat) (write : Option (Option Stat))
    (p : UpstreamPoll) : Option (State × UpstreamPoll) :=
  if ¬p.ws then some (σ, p)
  else if failed then σ.reconnectIfErrorOccured u true p
  else do
    let (σ, p) ← match read with
      | some stat => σ.wslayCall u stat p
      | none => some (σ, p)
    match write with
    | some send => σ.ioWrite u h send p
    | none => some (σ, p)

end State

/-- What the loop calls, with what comes of it. -/
inductive Round
  | reconnect (c : Connect)
  | connCheck (connected written : Bool)
  | answer (a : Answer)
  | io (failed : Bool) (read : Option Stat) (write : Option (Option Stat))
  | ping (timeout : Bool)

/-- The handle that a round is for. -/
def Round.use : Round → Use
  | .reconnect _ => .reconnect
  | .connCheck _ _ => .connCheck
  | .answer _ => .conn
  | .io _ _ _ => .ws
  | .ping _ => .ping

/-- What happens: an upstream is added or enabled, deleted or disabled, or the callback of a handle comes. -/
inductive Event
  | create (c : Connect)
  | remove
  | fires (h : Nat) (r : Round)

namespace State

variable (σ : State)

/-- A callback works on the poll it was given. -/
def onPoll (u : Nat) (f : UpstreamPoll → Option (State × UpstreamPoll)) : Option State := do
  let p ← σ.poll.get u
  let (σ, p) ← f p
  some { σ with poll := σ.poll.put u p }

/-- The timer of a callback that came does not come again. -/
def fired (h : Nat) : State := { σ with handle := σ.handle.modify h fun x => { x with active := false } }

/-- The poll that `upstream_create_poll` makes. -/
def newPoll : UpstreamPoll :=
  ⟨.none, none, none, false, none, 0, none, none, false, none, false⟩

/-- `upstream_create_poll`. -/
def upstreamCreatePoll (c : Connect) : Option State :=
  match σ.upstreamPoll with
  | some _ => some σ
  | none =>
    let u := σ.poll.next
    let σ := { σ with poll := σ.poll.alloc newPoll, upstreamPoll := some u }
    σ.onPoll u (σ.upstreamConnectConn u c)

/-- The poll of the node is cleared and freed. -/
def removePoll : Option State :=
  match σ.upstreamPoll with
  | none => some σ
  | some u => do
    let p ← σ.poll.get u
    let (σ, _) ← σ.upstreamClearPoll p
    some { σ with poll := σ.poll.free u, upstreamPoll := none }

/-- The callback of the handle `h`, which was given `data`. -/
def round (h data : Nat) : Round → Option State
  | .reconnect c => (σ.fired h).onPoll data ((σ.fired h).upstreamConnectConn data c)
  | .connCheck connected written => (σ.fired h).onPoll data ((σ.fired h).upstreamCheckConn data connected written)
  | .answer a => σ.onPoll data (σ.connectConnCallback data h a)
  | .io failed read write => σ.onPoll data (σ.upstreamIoHandler data h failed read write)
  | .ping timeout => if timeout then σ.brokerCloseLink (some data) else some σ

end State

/-- One event. `none` is an access to what is NULL or freed. -/
def step (σ : State) : Event → Option State
  | .create c => σ.upstreamCreatePoll c
  | .remove => σ.removePoll
  | .fires h r => (σ.handle.get h).bind fun x => σ.round h x.data r

/-- A callback comes for a handle that is active, and is the one of the handle. -/
def Event.Occurs (σ : State) : Event → Prop
  | .fires h r => ∃ data, σ.handle.get h = some ⟨r.use, true, data⟩
  | _ => True

end DSLink.Upstream
