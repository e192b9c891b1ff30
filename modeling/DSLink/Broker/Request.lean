import DSLink.Broker.Permission

/-!
# `Broker.Request` — what the broker does with list, invoke and set requests

The handlers of `msg_list.c`, `msg_invoke.c` and `msg_set.c` up to their effect: which of the source's branches a
request takes, what is answered at once, and what goes to a responder. `L` is the downstream node of the link
the request came in on. A handler has no result where the source dereferences NULL.

## Contents
- `brokerMsgHandleList`, `brokerMsgHandleInvoke`, `brokerMsgHandleSet`.
- `Forwards`: the request that reaches a responder, with what each handler puts into it.
-/

namespace DSLink

/-- The text before the last slash, `dslink_strdupl(path, name - path - 1)`. -/
def parentPath (path : CString) : CString := path.take (path.length - (lastSegment path).length - 1)

/-- The permit of a request as its handlers read it. -/
def maxPermit (req : Json) : PermissionLevel :=
  match req.get (cstr "permit") with
  | some (.string permit) => permissionStrLevel (some permit)
  | _ => .config

namespace Site

/-- `permissionOnPath` of the handlers: the permission of the link, capped by the permit of the request. -/
def permissionOnPath (σ : Site) (L : DownId) (req : Json) (path : CString) : Option PermissionLevel := do
  let permission ← σ.getPermission path L
  some (permission.cap (maxPermit req))

/-! ## `broker_msg_handle_list` -/

/-- What a list request leads to. -/
inductive ListEffect
  | malformed
  | closed (error : CString)
  | self (n : NodeId)
  | dslink (d : DownId) (path : CString)
  | staticList
  | disconnectedList

/-- `broker_msg_handle_list`. -/
def brokerMsgHandleList (σ : Site) (L : DownId) (req : Json) : Option ListEffect :=
  match (req.get (cstr "path")).bind Json.stringValue, req.get (cstr "rid") with
  | some path, some _ => do
    let node ← σ.base.brokerNodeGet path
    let permission ← σ.permissionOnPath L req path
    if permission < .list then some (.closed (cstr "permissionDenied"))
    else
      match node with
      | some (.regular n, _) => some (.self n)
      | some (.downstream d, out) => do
        let node ← σ.base.dnode.get d
        some (.dslink d (if out.head? = some slash ∧ node.name = out.tail then [slash] else out))
      | none => if startsWith path (cstr "/defs/") then some .staticList else some .disconnectedList
  | _, _ => some .malformed

/-! ## `broker_msg_handle_invoke` -/

/-- What an invoke request leads to. -/
inductive InvokeEffect
  | malformed
  | closed (error : CString)
  | invoke (n : NodeId) (maxPermit : PermissionLevel)
  | forward (d : DownId) (req : Json)

/-- The members `send_invoke_request` sets. -/
def sendInvokeRequest (req : Json) (rid : Nat) (path : CString) (maxPermission : PermissionLevel) : Json :=
  let req := (req.set (cstr "rid") (.integer rid)).set (cstr "path") (.string path)
  if maxPermission < .config then req.set (cstr "permit") (.string (permissionLevelStr maxPermission)) else req

/-- `json_string_value` of the `$invokable` member of a local node. -/
def invokable (σ : Site) (n : NodeId) : Option CString :=
  ((σ.metadata (.regular n)).get (cstr "$invokable")).bind Json.stringValue

/-- `broker_msg_handle_invoke`. The path is dereferenced whatever type it has. -/
def brokerMsgHandleInvoke (σ : Site) (L : DownId) (req : Json) : Option InvokeEffect :=
  match req.get (cstr "rid"), req.get (cstr "path") with
  | some _, some reqPath => do
    let path ← reqPath.stringValue
    let node ← σ.base.brokerNodeGet path
    match node with
    | none => some (.closed (cstr "disconnected"))
    | some (node, out) =>
      let permission ← σ.permissionOnPath L req path
      if permission = .none then some (.closed (cstr "permissionDenied"))
      else
        match node with
        | .regular n =>
          if permission < permissionStrLevel (σ.invokable n) then some (.closed (cstr "permissionDenied"))
          else some (.invoke n (maxPermit req))
        | .downstream d => do
          let node ← σ.base.dnode.get d
          if node.link.isNone then some (.closed (cstr "disconnected"))
          else some (.forward d (sendInvokeRequest req (Broker.incrRid node.rid) out permission))
  | _, _ => some .malformed

/-! ## `broker_msg_handle_set` -/

/-- The outcome of `broker_msg_check_set_arrtribtues`. -/
inductive AttributeCheck
  | notAttribute
  | invalidParameter
  | denied
  | set (node : Option (NodeRef × CString)) (name : CString) (value : Json)

/-- `broker_msg_check_set_arrtribtues`. A path without a slash is dereferenced past NULL. -/
def brokerMsgCheckSetAttributes (σ : Site) (L : DownId) (req : Json) (path : CString) : Option AttributeCheck :=
  if slash ∉ path then none
  else if (lastSegment path).head? ≠ some 64 then some .notAttribute
  else
    match req.get (cstr "value") with
    | none => some .invalidParameter
    | some value => do
      let node ← σ.base.brokerNodeGet (parentPath path)
      let permission ← σ.permissionOnPath L req (parentPath path)
      if permission < .write then some .denied else some (.set node (lastSegment path) value)

/-- What a set request does to the broker. -/
inductive SetEffect
  | nothing
  | attribute (node : Option (NodeRef × CString)) (name : CString) (value : Json)
  | forward (d : DownId) (req : Json)
  | update (n : NodeId) (value : Option Json)
  | create (path : CString) (value : Option Json)

/-- The errors of the closed responses that are sent, in their order, and the effect. -/
structure Handled where
  replies : List (Option CString)
  effect : SetEffect

/-- `broker_msg_handle_set` past the check for attributes. -/
def setValue (σ : Site) (L : DownId) (req : Json) (path : CString) : Option Handled := do
  let node ← σ.base.brokerNodeGet path
  let permission ← σ.permissionOnPath L req path
  if permission < .write then some ⟨[some (cstr "permissionDenied")], .nothing⟩
  else
    match node with
    | some (.downstream d, out) => do
      let node ← σ.base.dnode.get d
      let reqRid := toU32 (((req.get (cstr "rid")).map Json.integerValue).getD 0)
      let forwarded := (req.set (cstr "rid") (.integer reqRid)).set (cstr "path") (.string out)
      some ⟨[none], if node.link.isSome then .forward d forwarded else .nothing⟩
    | some (.regular n, _) =>
      -- a segment that starts with '$' is a config of a local node
      if (lastSegment path).head? = some 36 then some ⟨[some (cstr "invalidParameter")], .nothing⟩
      else some ⟨[none], .update n (req.get (cstr "value"))⟩
    | none =>
      if (lastSegment path).head? = some 36 then some ⟨[some (cstr "invalidParameter")], .nothing⟩
      else if startsWith path (cstr "/data") then some ⟨[none], .create path (req.get (cstr "value"))⟩
      else some ⟨[none], .nothing⟩

/-- `broker_msg_handle_set`. An attribute that may not be set is handled as a value once more. -/
def brokerMsgHandleSet (σ : Site) (L : DownId) (req : Json) : Option Handled :=
  match (req.get (cstr "path")).bind Json.stringValue, req.get (cstr "rid") with
  | some path, some _ => do
    let check ← σ.brokerMsgCheckSetAttributes L req path
    match check with
    | .notAttribute => σ.setValue L req path
    | .denied => do
      let handled ← σ.setValue L req path
      some { handled with replies := some (cstr "permissionDenied") :: handled.replies }
    | .invalidParameter => some ⟨[some (cstr "invalidParameter")], .nothing⟩
    | .set node name value => some ⟨[none], .attribute node name value⟩
  | _, _ => some ⟨[], .nothing⟩

/-! ## `broker_add_new_subscription` -/

/-- The responder a subscription to `path` goes to, with the path for it. -/
def subscribeTarget (σ : Site) (path : CString) : Option (DownId × CString) :=
  match σ.base.brokerNodeGet path with
  | some (some (.downstream d, out)) => some (d, out)
  | _ => none

/-- What `broker_add_new_subscription` finds is what it passes to `broker_subscribe_remote`. -/
theorem brokerAddNewSubscription_target {cfg : Config} {σ : Site} {s : SubId} {req : SubRequester Json} {now : Json}
    {d : DownId} {out : CString} (hs : σ.base.sub.get s = some req)
    (h : σ.subscribeTarget req.path = some (d, out)) :
    σ.base.brokerAddNewSubscription cfg s now
      = (σ.base.modDnode req.reqNode (fun node => { node with
          reqSubPaths := node.reqSubPaths.set req.path s
          reqSubSids := node.reqSubSids.set req.reqSid s })).brokerSubscribeRemote cfg d s out := by
  unfold subscribeTarget at h
  split at h
  · rename_i e out' hget
    cases h
    simp only [Broker.brokerAddNewSubscription, hs, hget, Option.bind_eq_bind, Option.bind_some, Broker.placeSub]
  · cases h

/-! ## Requests that reach a responder -/

/-- The two methods whose requests are passed on as they came. -/
inductive ForwardMethod
  | invoke | set
  deriving DecidableEq

/-- A request on the link of `L` makes the broker send `req'` to the link of `d`. -/
def Forwards (σ : Site) (L : DownId) (req : Json) (d : DownId) (req' : Json) : ForwardMethod → Prop
  | .invoke => σ.brokerMsgHandleInvoke L req = some (.forward d req')
  | .set => ∃ replies, σ.brokerMsgHandleSet L req = some ⟨replies, .forward d req'⟩

end Site

/-- The path of a request. -/
def requestPath (req : Json) : Option CString := (req.get (cstr "path")).bind Json.stringValue

theorem object_of_requestPath {req : Json} {path : CString} (h : requestPath req = some path) :
    ∃ members, req = .object members := by
  obtain ⟨value, hget, -⟩ := Option.bind_eq_some_iff.mp h
  exact Json.eq_object_of_get hget

namespace Site

variable {σ : Site} {L d : DownId} {req req' : Json}

theorem brokerMsgHandleInvoke_forward (h : σ.brokerMsgHandleInvoke L req = some (.forward d req')) :
    ∃ path out permission node, requestPath req = some path ∧
      σ.base.brokerNodeGet path = some (some (.downstream d, out)) ∧
      σ.permissionOnPath L req path = some permission ∧ permission ≠ .none ∧ σ.base.dnode.get d = some node ∧
      req' = sendInvokeRequest req (Broker.incrRid node.rid) out permission := by
  unfold brokerMsgHandleInvoke at h
  split at h
  · rename_i reqPath _ hreqPath
    simp only [Option.bind_eq_bind, Option.bind_eq_some_iff] at h
    obtain ⟨path, hpath, node, hnode, h⟩ := h
    have hrequest : requestPath req = some path := by rw [requestPath, hreqPath]; exact hpath
    split at h
    · cases h
    · rename_i ref out
      simp only [Option.bind_eq_some_iff] at h
      obtain ⟨permission, hpermission, h⟩ := h
      split at h
      · cases h
      · rename_i hne
        split at h
        · split at h <;> cases h
        · simp only [Option.bind_eq_some_iff] at h
          obtain ⟨node, hd, h⟩ := h
          split at h
          · cases h
          · cases h
            exact ⟨path, out, permission, node, hrequest, hnode, hpermission, hne, hd, rfl⟩
  · cases h

theorem setValue_forward {path : CString} {replies : List (Option CString)}
    (h : σ.setValue L req path = some ⟨replies, .forward d req'⟩) :
    ∃ out permission node rid, σ.base.brokerNodeGet path = some (some (.downstream d, out)) ∧
      σ.permissionOnPath L req path = some permission ∧ σ.base.dnode.get d = some node ∧
      req' = (req.set (cstr "rid") (.integer rid)).set (cstr "path") (.string out) := by
  simp only [setValue, Option.bind_eq_bind, Option.bind_eq_some_iff] at h
  obtain ⟨node, hnode, permission, hpermission, h⟩ := h
  split at h
  · cases h
  · split at h
    · simp only [Option.bind_eq_some_iff] at h
      obtain ⟨node, hd, h⟩ := h
      obtain ⟨-, h⟩ := Handled.mk.inj (Option.some.inj h)
      split at h
      · cases h
        exact ⟨_, permission, node, _, hnode, hpermission, hd, rfl⟩
      · cases h
    · split at h <;> cases h
    · split at h
      · cases h
      · split at h <;> cases h

theorem brokerMsgHandleSet_forward {replies : List (Option CString)}
    (h : σ.brokerMsgHandleSet L req = some ⟨replies, .forward d req'⟩) :
    ∃ path out permission node rid, requestPath req = some path ∧
      σ.base.brokerNodeGet path = some (some (.downstream d, out)) ∧
      σ.permissionOnPath L req path = some permission ∧ σ.base.dnode.get d = some node ∧
      req' = (req.set (cstr "rid") (.integer rid)).set (cstr "path") (.string out) := by
  unfold brokerMsgHandleSet at h
  split at h
  · rename_i path _ hpath _
    simp only [Option.bind_eq_bind, Option.bind_eq_some_iff] at h
    obtain ⟨check, -, h⟩ := h
    have hvalue : ∃ replies', σ.setValue L req path = some ⟨replies', .forward d req'⟩ := by
      split at h
      · exact ⟨_, h⟩
      · simp only [Option.bind_eq_some_iff] at h
        obtain ⟨⟨replies', effect⟩, hvalue, h⟩ := h
        obtain ⟨-, heffect⟩ := Handled.mk.inj (Option.some.inj h)
        obtain rfl : effect = .forward d req' := heffect
        exact ⟨replies', hvalue⟩
      · cases h
      · cases h
    obtain ⟨replies', hvalue⟩ := hvalue
    obtain ⟨out, permission, node, rid, hnode, hpermission, hd, hreq⟩ := setValue_forward hvalue
    exact ⟨path, out, permission, node, rid, hpath, hnode, hpermission, hd, hreq⟩
  · cases h

end Site

end DSLink
