import DSLink.Lib.Run
import DSLink.Broker.State

/-!
# `Broker.Handshake` — the two requests of a connecting link

`broker/src/handshake.c`. A `/conn` request reserves a name below `/downstream` for a link, `client_connecting`
holds the link under that name and under the dsId it announced until a `/ws` request looks it up. The state has
the fields of a `RemoteDSLink` and of a `DownstreamNode` that these requests, the end of a link and the removal
of a node work on. What the two requests ask of other modules (is the key there, is the token good, is the
answer to the challenge right, has `/downstream` a list stream) is part of the event.

## Contents
- The state, `handleConn` with the search for a name, `handleWs`, `step`, `Started`.
-/

namespace DSLink

/-- `RemoteDSLink`. `auth` is set until a `/ws` request was answered. `announced` is the dsId of the `/conn`
    request; no function reads it. -/
structure ConnLink where
  name : CString
  announced : CString
  dsId : Option CString
  auth : Bool

/-- `DownstreamNode`. -/
structure ConnNode where
  dsId : Option CString
  link : Option Nat

/-- The broker as the handshake sees it. -/
structure Handshake where
  link : Heap ConnLink
  clientConnecting : AssocMap CString Nat
  children : AssocMap CString ConnNode

namespace Handshake

/-! ## `broker_handshake_handle_conn` -/

/-- The link that is connecting with this dsId is given up. A link that was freed before is used here. -/
def dropConnecting (σ : Handshake) (dsId : CString) : Option Handshake :=
  match σ.clientConnecting.get dsId with
  | none => some σ
  | some l => (σ.link.get l).map (fun link =>
      { σ with clientConnecting := (σ.clientConnecting.erase dsId).erase link.name, link := σ.link.free l })

/-- The length of the shortest name, for a dsId of at least 44 characters. -/
def baseLen (dsId : CString) : Nat :=
  if dsId[dsId.length - 44]? = some 45 then dsId.length - 44 else dsId.length - 43

/-- `name[nameLen] = dsId[nameLen]`, up to the terminator of the dsId and within the buffer. -/
def extend (dsId : CString) (n : Nat) : Option Nat :=
  if n ≤ dsId.length ∧ (dsId.take (n + 1)).length < 500 then some (n + 1) else none

/-- The node under `name` is the one of another dsId. -/
def takenByOther (σ : Handshake) (dsId name : CString) : Prop :=
  ∃ node d, σ.children.get name = some node ∧ node.dsId = some d ∧ d ≠ dsId

/-- The second half of a round of the search: the candidate of length `n` among the nodes, with `nodeExists`. `next`
    goes on with a longer candidate. -/
def lookInChildren (σ : Handshake) (dsId : CString) (n : Nat) (next : Nat → Option (Handshake × Nat × Bool)) :
    Option (Handshake × Nat × Bool) :=
  match σ.children.get (dsId.take n) with
  | none => some (σ, n, false)
  | some node =>
    if node.dsId = none ∨ node.dsId = some dsId then some (σ, n, true) else (extend dsId n).bind next

/-- The search for a name, from the length `n` on. Every round makes the name longer, so a fuel above the length of
    the dsId suffices. -/
def findName (σ : Handshake) (dsId : CString) : Nat → Nat → Option (Handshake × Nat × Bool)
  | 0, _ => none
  | fuel + 1, n =>
    match σ.clientConnecting.get (dsId.take n) with
    | none => σ.lookInChildren dsId n (findName σ dsId fuel)
    | some l => do
      let link ← σ.link.get l
      if link.dsId = some dsId then
        some ({ σ with clientConnecting := σ.clientConnecting.erase (dsId.take n), link := σ.link.free l }, n, false)
      else σ.lookInChildren dsId (← extend dsId n) (findName σ dsId fuel)

/-- A link with a token gets its node at once. The list stream of `/downstream` is given the node with a link,
    which is taken away again. -/
def claimNode (σ : Handshake) (dsId name : CString) (nodeExists listed : Bool) : Handshake :=
  let node : ConnNode :=
    if nodeExists then (σ.children.get name).getD ⟨none, none⟩ else ⟨none, none⟩
  { σ with children := σ.children.set name ⟨some dsId, if listed then none else node.link⟩ }

/-- The link is put into `client_connecting`, under its name and under its dsId. -/
def enter (σ : Handshake) (dsId name : CString) : Handshake :=
  let l := σ.link.next
  { σ with link := σ.link.alloc ⟨name, dsId, none, true⟩
           clientConnecting := (σ.clientConnecting.set name l).set dsId l }

/-- `broker_handshake_handle_conn`. The buffer for the path has room for 499 characters after "/downstream/". -/
def handleConn (enableToken : Bool) (σ : Handshake) (dsId : CString) (pubKey tokenOk listed : Bool) :
    Option Handshake := do
  let σ ← σ.dropConnecting dsId
  if ¬ pubKey ∨ dsId.length < 44 then some σ
  else if 500 ≤ baseLen dsId then none
  else
    let (σ, n, nodeExists) ← σ.findName dsId (dsId.length + 2) (baseLen dsId)
    let name := dsId.take n
    if ¬ enableToken then some (σ.enter dsId name)
    else if ¬ tokenOk then some σ
    else some ((σ.claimNode dsId name nodeExists listed).enter dsId name)

/-! ## `broker_handshake_handle_ws` -/

/-- `broker_close_link`. -/
def closeLink (σ : Handshake) (l : Nat) : Option Handshake := do
  let link ← σ.link.get l
  let σ := { σ with link := σ.link.free l }
  match σ.children.get link.name with
  | none => some σ
  | some node => some { σ with children := σ.children.set link.name { node with link := none } }

/-- `broker_close_link` on what may be NULL. -/
def closeLinkIfAny (σ : Handshake) (l : Option Nat) : Option Handshake :=
  match l with
  | none => some σ
  | some l => σ.closeLink l

/-- The node of a link that is accepted, or a new one. -/
def nodeFor (σ : Handshake) (dsId name : CString) : ConnNode :=
  (σ.children.get name).getD ⟨some dsId, none⟩

/-- `broker_handshake_handle_ws`. `authOk` says whether the answer is the expected one. A link without `auth` was
    answered before. -/
def handleWs (σ : Handshake) (dsId : CString) (authOk : Bool) : Option Handshake :=
  match σ.clientConnecting.get dsId with
  | none => some σ
  | some l => do
    let link ← σ.link.get l
    let σ := { σ with clientConnecting := (σ.clientConnecting.erase dsId).erase link.name }
    if ¬ link.auth then none
    else if ¬ authOk then some { σ with link := σ.link.free l }
    else
      let node := σ.nodeFor dsId link.name
      let σ ← σ.closeLinkIfAny node.link
      some { σ with link := σ.link.modify l (fun link => { link with dsId := node.dsId, auth := false })
                    children := σ.children.set link.name ⟨node.dsId, some l⟩ }

/-! ## Runs -/

/-- What happens to the tables: the two requests, the end of a connected link, and a node without a link goes. -/
inductive Event
  | conn (dsId : CString) (pubKey tokenOk listed : Bool)
  | ws (dsId : CString) (authOk : Bool)
  | close (l : Nat)
  | removeNode (name : CString)

/-- One event. -/
def step (enableToken : Bool) (σ : Handshake) : Event → Option Handshake
  | .conn dsId pubKey tokenOk listed => σ.handleConn enableToken dsId pubKey tokenOk listed
  | .ws dsId authOk => σ.handleWs dsId authOk
  | .close l => do
    let link ← σ.link.get l
    if link.auth then none else σ.closeLink l
  | .removeNode name => do
    let node ← σ.children.get name
    if node.link.isSome then none else some { σ with children := σ.children.erase name }

/-- A broker that was just started: nobody is connecting, and the nodes that `conns.json` gives have a dsId. -/
structure Started (σ : Handshake) : Prop where
  link : σ.link = .empty
  connecting : σ.clientConnecting = .empty
  children : ∀ name node, σ.children.get name = some node → node.dsId.isSome ∧ node.link = none

end Handshake

end DSLink
