import DSLink.Broker.Forward
import DSLink.Lib.Access

/-!
# `Broker.SelfClose` — a link that is closed by its own message

`broker/src/msg/msg_handler.c`, `sys/permission_action.c`, `sys/token.c`, `upstream/upstream_sys_node.c` and the publish
action of `data/data.c`, as far as they read a link or close one. `broker_msg_handle` is given a link and keeps the
pointer to its end; three actions, and the listener of the `enabled` node of an upstream broker, close links that
a parameter, a token or a name chooses.

A handler is the list of its accesses in their order. A link goes by the downstream node it belongs to. What the
requests of a message do to the broker otherwise is left to the states: each request comes with the state it is
handled in.

## Contents
- `SysSite`: what the handlers read. `updatePermissionGroup`, `clearManagedLink`, `deleteTokenInvoke`,
  `upstreamClearPoll`, `deleteUpstreamInvoke`, `upstreamEnableChanged`, `onPublishContinuousInvoked`.
- `brokerHandleReq`, `brokerMsgHandle`: the accesses of a request and of a message.
- `SelfCloses`, `no_use_after_close`; `update_group_of_caller`: a link that sets its own group.
-/

namespace DSLink

/-- The `on_invoke` callbacks; `other` are those that read the link, close none and return. -/
inductive OnInvoke
  | updatePermissionGroup | deleteToken | deleteUpstream | publish | restart | other
  deriving DecidableEq

/-- `Site` with the callbacks of the nodes below `/sys`. `upstreamEnableChanged` says which nodes have that listener,
    `upstreamPoll` which nodes below `/upstream` have a poll, and `requesterStreams` which rids of a link are
    streams, with `continuous_invoke` or without. -/
structure SysSite where
  site : Site
  onInvoke : NodeId → Option OnInvoke
  enableChanged : NodeId → Bool
  upstreamPoll : DownId → Bool
  requesterStreams : DownId → AssocMap Nat Bool

/-- The accesses of a handler, `none` if it reads NULL. -/
abbrev Accesses := Option (List (Access DownId))

namespace SysSite

variable (σ : SysSite)

/-- Whether a downstream node has a link. -/
def connected (d : DownId) : Bool := (σ.site.base.dnode.get d).any (fun node => node.link.isSome)

/-- A child below `/downstream` or `/upstream`. The inner `none` is that there is no such child. -/
def childOf (parent : NodeId) (name : CString) : Option (Option DownId) := do
  let node ← σ.site.base.node.get parent
  match node.children.get name with
  | none => some none
  | some (.downstream d) => some (some d)
  | some (.regular _) => none

/-- `broker_close_link` on the link of a node, if it has one. -/
def closeLinkOf (d : DownId) : List (Access DownId) := if σ.connected d then [.free d] else []

/-- `name` of the parent of a node. -/
def parentOf (n : NodeId) : Option (NodeId × CString) := do
  let node ← σ.site.base.node.get n
  let p ← node.parent
  let parent ← σ.site.base.node.get p
  some (p, parent.name)

/-! ## The actions -/

/-- `update_permission_group`. -/
def updatePermissionGroup (L : DownId) (req : Json) (maxPermission : PermissionLevel) : Accesses :=
  if maxPermission < .config then some [.use L]
  else
    match req.get (cstr "params") with
    | some (.object params) =>
      match (Json.object params).get (cstr "Name") with
      | some (.string name) => do
        let child ← σ.childOf σ.site.base.downstream name
        -- the closed response goes to the caller after the link of the child is closed
        some (child.elim [] σ.closeLinkOf ++ [.use L])
      | _ => some [.use L]
    | _ => some [.use L]

/-- The loop of `clear_managed_link` over the children of `/downstream`. -/
def clearManagedLink (name : CString) : Accesses := do
  let node ← σ.site.base.node.get σ.site.base.downstream
  let accesses ← node.children.values.mapM (fun child =>
    match child with
    | .downstream d =>
      some (if ((σ.site.metadata (.downstream d)).get (cstr "$$token")).bind Json.stringValue = some name then σ.closeLinkOf d
        else [])
    | .regular _ => none)
  some accesses.flatten

/-- `delete_token_invoke`. -/
def deleteTokenInvoke (L : DownId) (n : NodeId) : Accesses := do
  let (p, name) ← σ.parentOf n
  match (σ.site.metadata (.regular p)).get (cstr "$$managed") with
  | some (.bool true) => do
    let accesses ← σ.clearManagedLink name
    some (.use L :: accesses)
  | _ => some [.use L]

/-- `upstream_clear_poll` for the node below `/upstream` that has the name. -/
def upstreamClearPoll (name : CString) : Accesses := do
  let child ← σ.childOf σ.site.base.upstream name
  some (child.elim [] (fun d => if σ.upstreamPoll d then σ.closeLinkOf d else []))

/-- `delete_upstream_invoke`. -/
def deleteUpstreamInvoke (L : DownId) (n : NodeId) : Accesses := do
  let (_, name) ← σ.parentOf n
  let accesses ← σ.upstreamClearPoll name
  some (.use L :: accesses)

/-- `upstream_enable_changed`. A value other than false may open a link but closes none that is there. -/
def upstreamEnableChanged (n : NodeId) (value : Option Json) : Accesses :=
  match value with
  | some (.bool false) => do
    let (_, name) ← σ.parentOf n
    σ.upstreamClearPoll name
  | _ => some []

/-- `broker_node_update_value`, the listeners. -/
def brokerNodeUpdateValue (n : NodeId) (value : Option Json) : Accesses :=
  if σ.enableChanged n then σ.upstreamEnableChanged n value else some []

/-- `on_publish_continuous_invoked`. -/
def onPublishContinuousInvoked (L : DownId) (params : Option Json) : Accesses :=
  match params with
  | some (.object members) =>
    match ((Json.object members).get (cstr "Path")).bind Json.stringValue, (Json.object members).get (cstr "Value") with
    | some path, some value => do
      let node ← σ.site.base.brokerNodeGet path
      match node with
      | some (.regular n, _) => do
        let accesses ← σ.brokerNodeUpdateValue n (some value)
        some (.use L :: accesses)
      | _ => some [.use L]
    | _, _ => some []
  | _ => some []

/-- `on_publish_invoked`. The stream is put into a map of the link at the end. -/
def onPublishInvoked (L : DownId) (req : Json) : Accesses :=
  match req.get (cstr "params") with
  | some (.object members) => do
    let accesses ← σ.onPublishContinuousInvoked L (some (.object members))
    some (accesses ++ [.use L])
  | _ => some []

/-- `on_invoke` of a node. The inner `none` is that it has none. -/
def callback (n : NodeId) : Option (Option OnInvoke) := do
  let node ← σ.site.base.node.get n
  match node.onInvoke with
  | some .publish => some (some .publish)
  | some _ => some (some .other)
  | none => some (σ.onInvoke n)

/-- The call of `on_invoke`. -/
def invoke (L : DownId) (n : NodeId) (req : Json) (maxPermission : PermissionLevel) : Accesses := do
  let callback ← σ.callback n
  match callback with
  | some .updatePermissionGroup => σ.updatePermissionGroup L req maxPermission
  | some .deleteToken => σ.deleteTokenInvoke L n
  | some .deleteUpstream => σ.deleteUpstreamInvoke L n
  | some .publish => σ.onPublishInvoked L req
  | some .restart => some [.use L]
  | some .other => some [.use L]
  | none => some []

/-! ## Requests and messages -/

/-- `broker_msg_handle_invoke`. -/
def handleInvoke (L : DownId) (req : Json) : Accesses := do
  let effect ← σ.site.brokerMsgHandleInvoke L req
  match effect with
  | .invoke n maxPermit => do
    let accesses ← σ.invoke L n req maxPermit
    some (.use L :: accesses)
  | .malformed => some []
  | _ => some [.use L]

/-- `broker_msg_handle_set`. -/
def handleSet (L : DownId) (req : Json) : Accesses := do
  let handled ← σ.site.brokerMsgHandleSet L req
  match handled.effect with
  | .update n value => do
    let accesses ← σ.brokerNodeUpdateValue n value
    -- the closed response goes out after the value is set
    some (.use L :: accesses ++ [.use L])
  | _ => some [.use L]

/-- The methods whose handlers read the link and close none. -/
def readingMethods : List CString :=
  [cstr "list", cstr "subscribe", cstr "unsubscribe", cstr "remove", cstr "close"]

/-- `restart_broker` ends the process. -/
def restarts (L : DownId) (req : Json) : Bool :=
  (req.get (cstr "rid")).isSome && decide ((req.get (cstr "method")).bind Json.stringValue = some (cstr "invoke")) &&
    (match σ.site.brokerMsgHandleInvoke L req with
    | some (.invoke n _) => decide (σ.callback n = some (some .restart))
    | _ => false)

/-- `broker_handle_req` behind the look-up of the stream of the rid. -/
def handleMethod (L : DownId) (rid req : Json) : Accesses :=
  match (req.get (cstr "method")).bind Json.stringValue with
  | none =>
    if (σ.requesterStreams L).get (toU32 rid.integerValue) = some true then
      σ.onPublishContinuousInvoked L (req.get (cstr "params"))
    else some []
  | some method =>
    if method = cstr "invoke" then σ.handleInvoke L req
    else if method = cstr "set" then σ.handleSet L req
    else if method ∈ readingMethods then some [.use L]
    else some []

/-- `broker_handle_req`. -/
def brokerHandleReq (L : DownId) (req : Json) : Accesses :=
  match req.get (cstr "rid") with
  | none => some []
  | some rid => (σ.handleMethod L rid req).map (fun accesses => .use L :: accesses)

end SysSite

/-- `json_array_foreach`. -/
def arrayElems : Option Json → List Json
  | some (.array elems) => elems
  | _ => []

/-- `json_is_integer`. -/
def isInteger : Option Json → Bool
  | some (.integer _) => true
  | _ => false

/-- The loop over the requests, the first of which is handled in the state `states i`, and whether it was left by
    `exit`. -/
def handleRequests (states : Nat → SysSite) (L : DownId) : Nat → List Json → Option (List (Access DownId) × Bool)
  | _, [] => some ([], false)
  | i, req :: reqs => do
    let accesses ← (states i).brokerHandleReq L req
    if (states i).restarts L req then some (accesses, true)
    else do
      let rest ← handleRequests states L (i + 1) reqs
      some (accesses ++ rest.1, rest.2)

/-- `broker_msg_handle` behind the requests: the responses and the ack. -/
def handleResponses (L : DownId) (isResponder : Bool) (data : Json) : List (Access DownId) :=
  let resps := if isResponder then arrayElems (data.get (cstr "responses")) else []
  let sendAckOk := isInteger (data.get (cstr "msg")) &&
    ((data.get (cstr "requests")).isSome || (data.get (cstr "responses")).isSome)
  .use L :: ((resps.filter (fun resp => (resp.get (cstr "rid")).isSome)).map (fun _ => Access.use L) ++
    if sendAckOk then [.use L] else [])

/-- The requests of a message, if the link may send any. -/
def requestsOf (isRequester : Bool) (data : Json) : List Json :=
  if isRequester then arrayElems (data.get (cstr "requests")) else []

/-- `broker_msg_handle`. -/
def brokerMsgHandle (states : Nat → SysSite) (L : DownId) (isRequester isResponder : Bool) (data : Json) : Accesses := do
  let ack := if isInteger (data.get (cstr "ack")) then [Access.use L] else []
  let handled ← handleRequests states L 0 (requestsOf isRequester data)
  some (ack ++ .use L :: handled.1 ++ if handled.2 then [] else handleResponses L isResponder data)

namespace SysSite

variable (σ : SysSite) (L : DownId)

/-! ## Which requests close the link they came on -/

/-- The node of the link is the one below `/upstream` that has the name, and the poll there is the link's. -/
def PollOf (name : CString) : Prop :=
  σ.childOf σ.site.base.upstream name = some (some L) ∧ σ.upstreamPoll L = true ∧ σ.connected L = true

/-- A value false for the `enabled` node of the upstream broker that the link belongs to. -/
def Disables (n : NodeId) (value : Option Json) : Prop :=
  σ.enableChanged n = true ∧ value = some (.bool false) ∧ ∃ p name, σ.parentOf n = some (p, name) ∧ σ.PollOf L name

/-- A publish to that node. -/
def PublishDisables (params : Option Json) : Prop :=
  ∃ members path value n out, params = some (.object members) ∧
    ((Json.object members).get (cstr "Path")).bind Json.stringValue = some path ∧
    (Json.object members).get (cstr "Value") = some value ∧
    σ.site.base.brokerNodeGet path = some (some (.regular n, out)) ∧ σ.Disables L n (some value)

/-- An invocation that closes the caller's link: of updateGroup with the name of its node, of the deletion of the managed
    token it came with, of the deletion of the upstream broker it belongs to, or of publish. -/
inductive InvokeCloses (req : Json) (n : NodeId) (permission : PermissionLevel) : Prop
  | updateGroup {params : Object} {name : CString} (hcallback : σ.callback n = some (some .updatePermissionGroup))
      (hconfig : ¬ permission < .config) (hparams : req.get (cstr "params") = some (.object params))
      (hname : (Json.object params).get (cstr "Name") = some (.string name))
      (hchild : σ.childOf σ.site.base.downstream name = some (some L)) (hlink : σ.connected L = true)
  | deleteToken {p : NodeId} {name : CString} {node : BrokerNode Json}
      (hcallback : σ.callback n = some (some .deleteToken)) (hparent : σ.parentOf n = some (p, name))
      (hmanaged : (σ.site.metadata (.regular p)).get (cstr "$$managed") = some (.bool true))
      (hnode : σ.site.base.node.get σ.site.base.downstream = some node)
      (hchild : .downstream L ∈ node.children.values)
      (htoken : ((σ.site.metadata (.downstream L)).get (cstr "$$token")).bind Json.stringValue = some name)
      (hlink : σ.connected L = true)
  | deleteUpstream {p : NodeId} {name : CString} (hcallback : σ.callback n = some (some .deleteUpstream))
      (hparent : σ.parentOf n = some (p, name)) (hpoll : σ.PollOf L name)
  | publish (hcallback : σ.callback n = some (some .publish)) (hpublish : σ.PublishDisables L (req.get (cstr "params")))

/-- A request that closes the link it came on. -/
inductive SelfCloses (req : Json) : Prop
  | invoke {rid : Json} {n : NodeId} {permission : PermissionLevel} (hrid : req.get (cstr "rid") = some rid)
      (hmethod : (req.get (cstr "method")).bind Json.stringValue = some (cstr "invoke"))
      (heffect : σ.site.brokerMsgHandleInvoke L req = some (.invoke n permission))
      (hcloses : σ.InvokeCloses L req n permission)
  | set {rid : Json} {replies : List (Option CString)} {n : NodeId} {value : Option Json}
      (hrid : req.get (cstr "rid") = some rid)
      (hmethod : (req.get (cstr "method")).bind Json.stringValue = some (cstr "set"))
      (heffect : σ.site.brokerMsgHandleSet L req = some ⟨replies, .update n value⟩) (hcloses : σ.Disables L n value)
  | continuous {rid : Json} (hrid : req.get (cstr "rid") = some rid)
      (hmethod : (req.get (cstr "method")).bind Json.stringValue = none)
      (hstream : (σ.requesterStreams L).get (toU32 rid.integerValue) = some true)
      (hcloses : σ.PublishDisables L (req.get (cstr "params")))

end SysSite

/-- One of the requests that are handled closes the link. -/
def SelfClosing (states : Nat → SysSite) (L : DownId) : Nat → List Json → Prop
  | _, [] => False
  | i, req :: reqs => (states i).SelfCloses L req ∨ (states i).restarts L req = false ∧ SelfClosing states L (i + 1) reqs

namespace SysSite

variable {σ : SysSite} {L : DownId} {t : List (Access DownId)} {req : Json} {n : NodeId}

/-! ## Which accesses free the link -/

theorem free_mem_closeLinkOf {d : DownId} : .free L ∈ σ.closeLinkOf d ↔ d = L ∧ σ.connected L = true := by
  unfold closeLinkOf
  constructor
  · intro h
    split at h
    · rename_i hd
      obtain rfl : L = d := by simpa using h
      exact ⟨rfl, hd⟩
    · cases h
  · rintro ⟨rfl, hd⟩
    rw [if_pos hd]
    exact List.mem_cons_self

theorem free_mem_use {t : List (Access DownId)} : .free L ∈ Access.use L :: t ↔ .free L ∈ t := by
  simp

theorem free_mem_append_use {t : List (Access DownId)} : .free L ∈ t ++ [Access.use L] ↔ .free L ∈ t := by
  simp

theorem updatePermissionGroup_frees {permission : PermissionLevel} (hcallback : σ.callback n = some (some .updatePermissionGroup))
    (h : σ.updatePermissionGroup L req permission = some t) : .free L ∈ t ↔ σ.InvokeCloses L req n permission := by
  have hback : σ.InvokeCloses L req n permission → ¬ permission < .config ∧ ∃ params name,
      req.get (cstr "params") = some (.object params) ∧ (Json.object params).get (cstr "Name") = some (.string name) ∧
      σ.childOf σ.site.base.downstream name = some (some L) ∧ σ.connected L = true := by
    rintro (⟨-, h1, h2, h3, h4, h5⟩ | ⟨h, -⟩ | ⟨h, -⟩ | ⟨h, -⟩)
    · exact ⟨h1, _, _, h2, h3, h4, h5⟩
    all_goals cases hcallback.symm.trans h
  have hno : t = [.use L] → (¬ σ.InvokeCloses L req n permission) → (.free L ∈ t ↔ σ.InvokeCloses L req n permission) := by
    rintro rfl hno
    exact iff_of_false (by simp) hno
  unfold updatePermissionGroup at h
  split at h
  · rename_i hlt
    exact hno (Option.some.inj h).symm (fun hc => (hback hc).1 hlt)
  · rename_i hlt
    split at h
    · rename_i params hparams
      split at h
      · rename_i name hname
        obtain ⟨child, hchild, h⟩ := Option.bind_eq_some_iff.mp h
        obtain rfl := Option.some.inj h
        rw [free_mem_append_use]
        constructor
        · intro hfree
          cases child with
          | none => cases hfree
          | some d =>
            obtain ⟨rfl, hlink⟩ := free_mem_closeLinkOf.mp hfree
            exact .updateGroup hcallback hlt hparams hname hchild hlink
        · intro hc
          obtain ⟨-, params', name', h1, h2, h3, h4⟩ := hback hc
          cases hparams.symm.trans h1
          cases hname.symm.trans h2
          cases hchild.symm.trans h3
          exact free_mem_closeLinkOf.mpr ⟨rfl, h4⟩
      · rename_i hname
        apply hno (Option.some.inj h).symm
        intro hc
        obtain ⟨-, params', name', h1, h2, -⟩ := hback hc
        cases hparams.symm.trans h1
        exact hname name' h2
    · rename_i hparams
      apply hno (Option.some.inj h).symm
      intro hc
      obtain ⟨-, params', name', h1, -⟩ := hback hc
      exact hparams params' h1

theorem clearManagedLink_frees {name : CString} (h : σ.clearManagedLink name = some t) :
    .free L ∈ t ↔ (∃ node, σ.site.base.node.get σ.site.base.downstream = some node ∧ .downstream L ∈ node.children.values) ∧
      ((σ.site.metadata (.downstream L)).get (cstr "$$token")).bind Json.stringValue = some name ∧
      σ.connected L = true := by
  obtain ⟨node, hnode, h⟩ := Option.bind_eq_some_iff.mp h
  obtain ⟨ts, hts, h⟩ := Option.bind_eq_some_iff.mp h
  obtain rfl := Option.some.inj h
  rw [mem_flatten_mapM hts]
  constructor
  · rintro ⟨child, hchild, t, ht, hfree⟩
    cases child with
    | regular m => cases ht
    | downstream d =>
      obtain rfl := Option.some.inj ht
      split at hfree
      · rename_i htoken
        obtain ⟨rfl, hlink⟩ := free_mem_closeLinkOf.mp hfree
        exact ⟨⟨node, hnode, hchild⟩, htoken, hlink⟩
      · cases hfree
  · rintro ⟨⟨node', hnode', hchild⟩, htoken, hlink⟩
    cases hnode.symm.trans hnode'
    refine ⟨.downstream L, hchild, _, rfl, ?_⟩
    rw [if_pos htoken]
    exact free_mem_closeLinkOf.mpr ⟨rfl, hlink⟩

theorem deleteTokenInvoke_frees {permission : PermissionLevel} (hcallback : σ.callback n = some (some .deleteToken))
    (h : σ.deleteTokenInvoke L n = some t) : .free L ∈ t ↔ σ.InvokeCloses L req n permission := by
  obtain ⟨⟨p, name⟩, hparent, h⟩ := Option.bind_eq_some_iff.mp h
  have hback : σ.InvokeCloses L req n permission →
      (σ.site.metadata (.regular p)).get (cstr "$$managed") = some (.bool true) ∧
      (∃ node, σ.site.base.node.get σ.site.base.downstream = some node ∧ .downstream L ∈ node.children.values) ∧
      ((σ.site.metadata (.downstream L)).get (cstr "$$token")).bind Json.stringValue = some name ∧
      σ.connected L = true := by
    rintro (⟨h, -⟩ | ⟨-, h1, h2, h3, h4, h5, h6⟩ | ⟨h, -⟩ | ⟨h, -⟩)
    · cases hcallback.symm.trans h
    · cases hparent.symm.trans h1
      exact ⟨h2, ⟨_, h3, h4⟩, h5, h6⟩
    all_goals cases hcallback.symm.trans h
  dsimp only at h
  split at h
  · rename_i hmanaged
    obtain ⟨accesses, hclear, h⟩ := Option.bind_eq_some_iff.mp h
    obtain rfl := Option.some.inj h
    rw [free_mem_use, clearManagedLink_frees hclear]
    constructor
    · rintro ⟨⟨node, hnode, hchild⟩, htoken, hlink⟩
      exact .deleteToken hcallback hparent hmanaged hnode hchild htoken hlink
    · exact fun hc => (hback hc).2
  · rename_i hmanaged
    obtain rfl := Option.some.inj h
    exact iff_of_false (by simp) (fun hc => hmanaged (hback hc).1)

theorem upstreamClearPoll_frees {name : CString} (h : σ.upstreamClearPoll name = some t) :
    .free L ∈ t ↔ σ.PollOf L name := by
  obtain ⟨child, hchild, h⟩ := Option.bind_eq_some_iff.mp h
  obtain rfl := Option.some.inj h
  constructor
  · intro hfree
    cases child with
    | none => cases hfree
    | some d =>
      rw [Option.elim_some] at hfree
      split at hfree
      · rename_i hpoll
        obtain ⟨rfl, hlink⟩ := free_mem_closeLinkOf.mp hfree
        exact ⟨hchild, hpoll, hlink⟩
      · cases hfree
  · rintro ⟨hchild', hpoll, hlink⟩
    cases hchild.symm.trans hchild'
    rw [Option.elim_some, if_pos hpoll]
    exact free_mem_closeLinkOf.mpr ⟨rfl, hlink⟩

theorem deleteUpstreamInvoke_frees {permission : PermissionLevel}
    (hcallback : σ.callback n = some (some .deleteUpstream)) (h : σ.deleteUpstreamInvoke L n = some t) :
    .free L ∈ t ↔ σ.InvokeCloses L req n permission := by
  obtain ⟨⟨p, name⟩, hparent, h⟩ := Option.bind_eq_some_iff.mp h
  obtain ⟨accesses, hclear, h⟩ := Option.bind_eq_some_iff.mp h
  obtain rfl := Option.some.inj h
  rw [free_mem_use, upstreamClearPoll_frees hclear]
  constructor
  · exact fun hpoll => .deleteUpstream hcallback hparent hpoll
  · rintro (⟨h, -⟩ | ⟨h, -⟩ | ⟨-, h1, h2⟩ | ⟨h, -⟩)
    · cases hcallback.symm.trans h
    · cases hcallback.symm.trans h
    · cases hparent.symm.trans h1
      exact h2
    · cases hcallback.symm.trans h

theorem brokerNodeUpdateValue_frees {value : Option Json} (h : σ.brokerNodeUpdateValue n value = some t) :
    .free L ∈ t ↔ σ.Disables L n value := by
  unfold brokerNodeUpdateValue at h
  split at h
  · rename_i henable
    unfold upstreamEnableChanged at h
    split at h
    · obtain ⟨⟨p, name⟩, hparent, h⟩ := Option.bind_eq_some_iff.mp h
      rw [upstreamClearPoll_frees h]
      constructor
      · exact fun hpoll => ⟨henable, rfl, p, name, hparent, hpoll⟩
      · rintro ⟨-, -, p', name', hparent', hpoll⟩
        cases hparent.symm.trans hparent'
        exact hpoll
    · rename_i hvalue
      obtain rfl := Option.some.inj h
      refine iff_of_false (by simp) ?_
      rintro ⟨-, rfl, -⟩
      exact hvalue rfl
  · rename_i henable
    obtain rfl := Option.some.inj h
    exact iff_of_false (by simp) (fun hd => henable hd.1)

theorem onPublishContinuousInvoked_frees {params : Option Json} (h : σ.onPublishContinuousInvoked L params = some t) :
    .free L ∈ t ↔ σ.PublishDisables L params := by
  unfold onPublishContinuousInvoked at h
  split at h
  · rename_i members
    split at h
    · rename_i path value hpath hvalue
      obtain ⟨node, hnode, h⟩ := Option.bind_eq_some_iff.mp h
      have hback : σ.PublishDisables L (some (.object members)) →
          ∃ n out, node = some (.regular n, out) ∧ σ.Disables L n (some value) := by
        rintro ⟨members', path', value', n, out, h1, h2, h3, h4, h5⟩
        cases h1
        cases hpath.symm.trans h2
        cases hvalue.symm.trans h3
        cases hnode.symm.trans h4
        exact ⟨n, out, rfl, h5⟩
      split at h
      · rename_i n out
        obtain ⟨accesses, hupdate, h⟩ := Option.bind_eq_some_iff.mp h
        obtain rfl := Option.some.inj h
        rw [free_mem_use, brokerNodeUpdateValue_frees hupdate]
        constructor
        · exact fun hd => ⟨members, path, value, n, out, rfl, hpath, hvalue, hnode, hd⟩
        · intro hc
          obtain ⟨n', out', he, hd⟩ := hback hc
          cases he
          exact hd
      · rename_i hno
        obtain rfl := Option.some.inj h
        refine iff_of_false (by simp) ?_
        intro hc
        obtain ⟨n', out', he, -⟩ := hback hc
        exact hno n' out' he
    · rename_i hno
      obtain rfl := Option.some.inj h
      refine iff_of_false (by simp) ?_
      rintro ⟨members', path', value', n, out, h1, h2, h3, -⟩
      cases h1
      exact hno path' value' h2 h3
  · rename_i hno
    obtain rfl := Option.some.inj h
    refine iff_of_false (by simp) ?_
    rintro ⟨members', path', value', n, out, h1, -⟩
    exact hno members' h1

/-! ## One request -/

theorem onPublishInvoked_frees {permission : PermissionLevel} (hcallback : σ.callback n = some (some .publish))
    (h : σ.onPublishInvoked L req = some t) : .free L ∈ t ↔ σ.InvokeCloses L req n permission := by
  have hiff : .free L ∈ t ↔ σ.PublishDisables L (req.get (cstr "params")) := by
    unfold onPublishInvoked at h
    split at h
    · rename_i members hparams
      obtain ⟨accesses, hpublish, h⟩ := Option.bind_eq_some_iff.mp h
      obtain rfl := Option.some.inj h
      rw [free_mem_append_use, hparams]
      exact onPublishContinuousInvoked_frees hpublish
    · rename_i hno
      obtain rfl := Option.some.inj h
      refine iff_of_false (by simp) ?_
      rintro ⟨members, path, value, n, out, hparams, -⟩
      exact hno members hparams
  rw [hiff]
  constructor
  · exact fun hpublish => .publish hcallback hpublish
  · rintro (⟨h, -⟩ | ⟨h, -⟩ | ⟨h, -⟩ | ⟨-, hpublish⟩)
    · cases hcallback.symm.trans h
    · cases hcallback.symm.trans h
    · cases hcallback.symm.trans h
    · exact hpublish

theorem invoke_frees {permission : PermissionLevel} (h : σ.invoke L n req permission = some t) :
    .free L ∈ t ↔ σ.InvokeCloses L req n permission := by
  obtain ⟨callback, hcallback, h⟩ := Option.bind_eq_some_iff.mp h
  have hno : callback ≠ some .updatePermissionGroup → callback ≠ some .deleteToken → callback ≠ some .deleteUpstream →
      callback ≠ some .publish → ¬ σ.InvokeCloses L req n permission := by
    rintro h1 h2 h3 h4 (⟨hc, -⟩ | ⟨hc, -⟩ | ⟨hc, -⟩ | ⟨hc, -⟩)
    · exact h1 (Option.some.inj (hcallback.symm.trans hc))
    · exact h2 (Option.some.inj (hcallback.symm.trans hc))
    · exact h3 (Option.some.inj (hcallback.symm.trans hc))
    · exact h4 (Option.some.inj (hcallback.symm.trans hc))
  rcases callback with _ | callback
  · obtain rfl := Option.some.inj h
    exact iff_of_false (by simp) (hno (by simp) (by simp) (by simp) (by simp))
  · cases callback with
    | updatePermissionGroup => exact updatePermissionGroup_frees hcallback h
    | deleteToken => exact deleteTokenInvoke_frees hcallback h
    | deleteUpstream => exact deleteUpstreamInvoke_frees hcallback h
    | publish => exact onPublishInvoked_frees hcallback h
    | restart =>
      obtain rfl := Option.some.inj h
      exact iff_of_false (by simp) (hno (by simp) (by simp) (by simp) (by simp))
    | other =>
      obtain rfl := Option.some.inj h
      exact iff_of_false (by simp) (hno (by simp) (by simp) (by simp) (by simp))

/-- The requests without `method`, with `invoke` and with `set`. -/
theorem SelfCloses.method (h : σ.SelfCloses L req) : (req.get (cstr "method")).bind Json.stringValue = some (cstr "invoke") ∨
    (req.get (cstr "method")).bind Json.stringValue = some (cstr "set") ∨
    (req.get (cstr "method")).bind Json.stringValue = none := by
  rcases h with ⟨-, h, -⟩ | ⟨-, h, -⟩ | ⟨-, h, -⟩
  · exact .inl h
  · exact .inr (.inl h)
  · exact .inr (.inr h)

theorem handleInvoke_frees {rid : Json} (hrid : req.get (cstr "rid") = some rid)
    (hmethod : (req.get (cstr "method")).bind Json.stringValue = some (cstr "invoke"))
    (h : σ.handleInvoke L req = some t) : .free L ∈ t ↔ σ.SelfCloses L req := by
  obtain ⟨effect, heffect, h⟩ := Option.bind_eq_some_iff.mp h
  have hback : σ.SelfCloses L req → ∃ n permission, effect = .invoke n permission ∧ σ.InvokeCloses L req n permission := by
    rintro (⟨-, -, h1, h2⟩ | ⟨-, h, -⟩ | ⟨-, h, -⟩)
    · exact ⟨_, _, Option.some.inj (heffect.symm.trans h1), h2⟩
    · exact absurd (Option.some.inj (hmethod.symm.trans h)) (by decide)
    · cases hmethod.symm.trans h
  have hno : (.free L ∉ t) → (∀ n permission, effect ≠ .invoke n permission) → (.free L ∈ t ↔ σ.SelfCloses L req) := by
    intro hfree hne
    refine iff_of_false hfree (fun hc => ?_)
    obtain ⟨n, permission, he, -⟩ := hback hc
    exact hne n permission he
  cases effect with
  | invoke n permission =>
    obtain ⟨accesses, hinvoke, h⟩ := Option.bind_eq_some_iff.mp h
    obtain rfl := Option.some.inj h
    rw [free_mem_use, invoke_frees hinvoke]
    constructor
    · exact fun hc => .invoke hrid hmethod heffect hc
    · intro hc
      obtain ⟨n', permission', he, hc⟩ := hback hc
      cases he
      exact hc
  | malformed =>
    obtain rfl := Option.some.inj h
    exact hno (by simp) (by simp)
  | closed error =>
    obtain rfl := Option.some.inj h
    exact hno (by simp) (by simp)
  | forward d req' =>
    obtain rfl := Option.some.inj h
    exact hno (by simp) (by simp)

theorem handleSet_frees {rid : Json} (hrid : req.get (cstr "rid") = some rid)
    (hmethod : (req.get (cstr "method")).bind Json.stringValue = some (cstr "set"))
    (h : σ.handleSet L req = some t) : .free L ∈ t ↔ σ.SelfCloses L req := by
  obtain ⟨⟨replies, effect⟩, heffect, h⟩ := Option.bind_eq_some_iff.mp h
  have hback : σ.SelfCloses L req → ∃ n value, effect = .update n value ∧ σ.Disables L n value := by
    rintro (⟨-, h, -⟩ | ⟨-, -, h1, h2⟩ | ⟨-, h, -⟩)
    · exact absurd (Option.some.inj (hmethod.symm.trans h)) (by decide)
    · cases heffect.symm.trans h1
      exact ⟨_, _, rfl, h2⟩
    · cases hmethod.symm.trans h
  dsimp only at h
  split at h
  · rename_i n value
    obtain ⟨accesses, hupdate, h⟩ := Option.bind_eq_some_iff.mp h
    obtain rfl := Option.some.inj h
    rw [free_mem_append_use, free_mem_use, brokerNodeUpdateValue_frees hupdate]
    constructor
    · exact fun hd => .set hrid hmethod heffect hd
    · intro hc
      obtain ⟨n', value', he, hd⟩ := hback hc
      cases he
      exact hd
  · rename_i hno
    obtain rfl := Option.some.inj h
    refine iff_of_false (by simp) (fun hc => ?_)
    obtain ⟨n', value', he, -⟩ := hback hc
    exact hno n' value' he

/-- The link is freed by a request if and only if the condition holds. -/
theorem brokerHandleReq_frees (h : σ.brokerHandleReq L req = some t) : .free L ∈ t ↔ σ.SelfCloses L req := by
  unfold brokerHandleReq at h
  split at h
  · rename_i hrid
    obtain rfl := Option.some.inj h
    refine iff_of_false (by simp) ?_
    rintro (⟨h, -⟩ | ⟨h, -⟩ | ⟨h, -⟩)
    all_goals cases hrid.symm.trans h
  · rename_i rid hrid
    obtain ⟨accesses, haccesses, rfl⟩ := Option.map_eq_some_iff.mp h
    rw [free_mem_use]
    unfold handleMethod at haccesses
    split at haccesses
    · rename_i hmethod
      have hback : σ.SelfCloses L req → (σ.requesterStreams L).get (toU32 rid.integerValue) = some true ∧
          σ.PublishDisables L (req.get (cstr "params")) := by
        rintro (⟨-, h, -⟩ | ⟨-, h, -⟩ | ⟨h1, -, h2, h3⟩)
        · cases hmethod.symm.trans h
        · cases hmethod.symm.trans h
        · cases hrid.symm.trans h1
          exact ⟨h2, h3⟩
      split at haccesses
      · rename_i hstream
        rw [onPublishContinuousInvoked_frees haccesses]
        exact ⟨fun hp => .continuous hrid hmethod hstream hp, fun hc => (hback hc).2⟩
      · rename_i hstream
        obtain rfl := Option.some.inj haccesses
        exact iff_of_false (by simp) (fun hc => hstream (hback hc).1)
    · rename_i method hmethod
      split at haccesses
      · rename_i hinvoke
        exact handleInvoke_frees hrid (hmethod.trans (congrArg some hinvoke)) haccesses
      · rename_i hinvoke
        split at haccesses
        · rename_i hset
          exact handleSet_frees hrid (hmethod.trans (congrArg some hset)) haccesses
        · rename_i hset
          have hno : ¬ σ.SelfCloses L req := by
            intro hc
            rcases hc.method with hm | hm | hm
            · exact hinvoke (Option.some.inj (hmethod.symm.trans hm))
            · exact hset (Option.some.inj (hmethod.symm.trans hm))
            · cases hmethod.symm.trans hm
          refine iff_of_false ?_ hno
          split at haccesses
          · obtain rfl := Option.some.inj haccesses
            simp
          · obtain rfl := Option.some.inj haccesses
            simp

/-- A request that ends the process reads the link and does not close it. -/
theorem restarts_accesses (hr : σ.restarts L req = true) (h : σ.brokerHandleReq L req = some t) :
    .use L ∈ t ∧ .free L ∉ t := by
  unfold restarts at hr
  rw [Bool.and_eq_true, Bool.and_eq_true, Option.isSome_iff_exists, decide_eq_true_eq] at hr
  obtain ⟨⟨⟨rid, hrid⟩, hmethod⟩, hrestart⟩ := hr
  constructor
  · unfold brokerHandleReq at h
    rw [hrid] at h
    obtain ⟨accesses, -, rfl⟩ := Option.map_eq_some_iff.mp h
    exact List.mem_cons_self
  · rw [brokerHandleReq_frees h]
    rintro (⟨-, -, heffect, hcloses⟩ | ⟨-, hm, -⟩ | ⟨-, hm, -⟩)
    · rw [heffect] at hrestart
      have hcallback := of_decide_eq_true hrestart
      rcases hcloses with ⟨hc, -⟩ | ⟨hc, -⟩ | ⟨hc, -⟩ | ⟨hc, -⟩
      all_goals cases hcallback.symm.trans hc
    · exact absurd (Option.some.inj (hmethod.symm.trans hm)) (by decide)
    · cases hmethod.symm.trans hm

end SysSite

/-! ## One message -/

section

variable {states : Nat → SysSite} {L : DownId} {reqs : List Json} {i : Nat}

theorem handleRequests_frees {handled : List (Access DownId) × Bool} (h : handleRequests states L i reqs = some handled) :
    (handled.2 = false → (.free L ∈ handled.1 ↔ SelfClosing states L i reqs)) ∧
    (handled.2 = true → ∃ pre post, handled.1 = pre ++ post ∧ .use L ∈ post ∧ .free L ∉ post ∧
      (.free L ∈ pre ↔ SelfClosing states L i reqs)) := by
  induction reqs generalizing i handled with
  | nil =>
    obtain rfl := Option.some.inj h
    refine ⟨fun _ => iff_of_false (by simp) (fun hc => hc), fun hexit => (by cases hexit)⟩
  | cons req reqs ih =>
    obtain ⟨accesses, haccesses, h⟩ := Option.bind_eq_some_iff.mp h
    have hfrees := SysSite.brokerHandleReq_frees (L := L) haccesses
    split at h
    · rename_i hr
      obtain rfl := Option.some.inj h
      obtain ⟨huse, hfree⟩ := SysSite.restarts_accesses hr haccesses
      refine ⟨fun hexit => (by cases hexit), fun _ => ⟨[], accesses, rfl, huse, hfree, iff_of_false (by simp) ?_⟩⟩
      rintro (hc | ⟨hno, -⟩)
      · exact hfree (hfrees.mpr hc)
      · exact absurd (hr.symm.trans hno) (by decide)
    · rename_i hr
      have hr : (states i).restarts L req = false := Bool.eq_false_iff.mpr hr
      obtain ⟨rest, hrest, h⟩ := Option.bind_eq_some_iff.mp h
      obtain rfl := Option.some.inj h
      obtain ⟨h1, h2⟩ := ih hrest
      have hcons : ∀ t : List (Access DownId), (.free L ∈ t ↔ SelfClosing states L (i + 1) reqs) →
          (.free L ∈ accesses ++ t ↔ SelfClosing states L i (req :: reqs)) := by
        intro t ht
        rw [List.mem_append, hfrees, ht]
        exact or_congr_right ⟨fun hc => ⟨hr, hc⟩, fun hc => hc.2⟩
      refine ⟨fun hexit => hcons rest.1 (h1 hexit), fun hexit => ?_⟩
      obtain ⟨pre, post, heq, huse, hfree, hiff⟩ := h2 hexit
      exact ⟨accesses ++ pre, post, by rw [heq, List.append_assoc], huse, hfree, hcons pre hiff⟩

theorem handleResponses_uses {isResponder : Bool} {data : Json} :
    .use L ∈ handleResponses L isResponder data ∧ .free L ∉ handleResponses L isResponder data := by
  unfold handleResponses
  refine ⟨List.mem_cons_self, ?_⟩
  dsimp only
  split <;> simp

/-- In every state and for every message, a link is not used after it was closed within the message if and only if no
    request that is handled closes it. -/
theorem no_use_after_close {isRequester isResponder : Bool} {data : Json} {t : List (Access DownId)}
    (h : brokerMsgHandle states L isRequester isResponder data = some t) :
    ¬ UsedAfterFree L t ↔ ¬ SelfClosing states L 0 (requestsOf isRequester data) := by
  obtain ⟨⟨handled, exited⟩, hhandled, h⟩ := Option.bind_eq_some_iff.mp h
  obtain rfl := Option.some.inj h
  obtain ⟨h1, h2⟩ := handleRequests_frees hhandled
  have hack : ∀ t, .free L ∈ (if isInteger (data.get (cstr "ack")) then [Access.use L] else []) ++ .use L :: t ↔
      .free L ∈ t := by
    intro t
    split <;> simp
  apply not_congr
  cases exited with
  | false =>
    rw [if_neg Bool.false_ne_true, usedAfterFree_iff_mem handleResponses_uses.1 handleResponses_uses.2, hack]
    exact h1 rfl
  | true =>
    obtain ⟨pre, post, heq, huse, hfree, hiff⟩ := h2 rfl
    dsimp only at heq
    rw [if_pos rfl, List.append_nil, heq, ← List.cons_append, ← List.append_assoc, usedAfterFree_iff_mem huse hfree, hack]
    exact hiff

end

/-- The node `n` is `/sys/updateGroup` of a broker that gives everybody all permissions. -/
def groupSite (base : Broker Json) (n : NodeId) : SysSite where
  site := { openSite base .config config_le_config with
    metadata := fun ref => if ref = .regular n then AssocMap.empty.set (cstr "$invokable") (.string (cstr "config")) else .empty }
  onInvoke := fun m => if m = n then some .updatePermissionGroup else none
  enableChanged := fun _ => false
  upstreamPoll := fun _ => false
  requesterStreams := fun _ => .empty

/-- A request that sets the group of a link, and the message with it. -/
def groupRequest (name : String) : Json :=
  .object [(cstr "rid", .integer 1), (cstr "method", .string (cstr "invoke")),
    (cstr "path", .string (cstr "/sys/updateGroup")), (cstr "params", .object [(cstr "Name", .string (cstr name))])]

def groupMessage (name : String) : Json := .object [(cstr "requests", .array [groupRequest name])]

/-- The links `r` and `x` connect, and there is a node for the action. -/
def twoLinksAndGroup : List (Event Json) := twoLinks ++ [.addLocal 1 (cstr "updateGroup")]

/-- The link `r` sets the group of the link `x`. -/
theorem update_group_of_other : ∃ (σ : SysSite) (t : List (Access DownId)),
    Reach (Broker.step Broker.smallConfig) (fun _ _ => True) (fun base => Broker.brokerInit = some base) σ.site.base ∧
      brokerMsgHandle (fun _ => σ) 0 true false (groupMessage "x") = some t ∧ .free 1 ∈ t ∧ ¬ UsedAfterFree 0 t := by
  obtain ⟨base, hreach, hcheck⟩ := Reach.of_eval (Broker.step Broker.smallConfig) Broker.brokerInit twoLinksAndGroup
    (fun base => decide ((groupSite base 9).brokerHandleReq 0 (groupRequest "x") =
        some [.use 0, .use 0, .free 1, .use 0]) &&
      decide (brokerMsgHandle (fun _ => groupSite base 9) 0 true false (groupMessage "x") =
        some [.use 0, .use 0, .use 0, .free 1, .use 0, .use 0])) (by decide)
  rw [Bool.and_eq_true] at hcheck
  obtain ⟨hrequest, hmessage⟩ := hcheck
  have hmessage := of_decide_eq_true hmessage
  refine ⟨groupSite base 9, _, hreach, hmessage, by decide, (no_use_after_close hmessage).mpr ?_⟩
  rintro (hcloses | ⟨-, hcloses⟩)
  · have hfree := (SysSite.brokerHandleReq_frees (of_decide_eq_true hrequest)).mpr hcloses
    exact absurd hfree (by decide)
  · exact hcloses

/-- The link `r` sets its own group: the response goes to a link that is gone. -/
theorem update_group_of_caller : ∃ (σ : SysSite) (t : List (Access DownId)),
    Reach (Broker.step Broker.smallConfig) (fun _ _ => True) (fun base => Broker.brokerInit = some base) σ.site.base ∧
      brokerMsgHandle (fun _ => σ) 0 true false (groupMessage "r") = some t ∧ UsedAfterFree 0 t := by
  obtain ⟨base, hreach, hcheck⟩ := Reach.of_eval (Broker.step Broker.smallConfig) Broker.brokerInit twoLinksAndGroup
    (fun base => decide (brokerMsgHandle (fun _ => groupSite base 9) 0 true false (groupMessage "r") =
      some [.use 0, .use 0, .use 0, .free 0, .use 0, .use 0])) (by decide)
  refine ⟨groupSite base 9, _, hreach, of_decide_eq_true hcheck, [.use 0, .use 0, .use 0], [.use 0, .use 0], rfl, ?_⟩
  simp

end DSLink
