import Mathlib.Logic.Relation
import DSLink.Broker.Request

/-!
# `Broker.Forward` — what a responder gets of a request

A request that is passed on carries a permit and a path for the responder. The permit should not be above what
the requester has here, so that no chain of brokers gives it more; the path should be the one of the request
without the path of the responder's node.

## Contents
- `Attenuated`, `Hop`: the permit, for one broker and along a chain.
- `Routes`, `respPath`: the path, for the four methods that have one.
-/

namespace DSLink

/-! ## The permit -/

/-- A requester whose level is below config is held to it by the permit of the request. -/
def Attenuated (level : PermissionLevel) (req : Json) : Prop :=
  level < .config → ∃ permit, req.get (cstr "permit") = some (.string permit) ∧
    permissionStrLevel (some permit) ≤ level

/-- What an attenuated request is worth at a broker that reads its permit. -/
theorem Attenuated.maxPermit_le {level : PermissionLevel} {req : Json} (h : Attenuated level req)
    (hlevel : level < .config) : maxPermit req ≤ level := by
  obtain ⟨permit, hpermit, hle⟩ := h hlevel
  simpa [maxPermit, hpermit] using hle

/-- A broker that has got a request: on which link, and by which method. -/
structure Hop where
  site : Site
  link : DownId
  method : Site.ForwardMethod
  req : Json

namespace Hop

/-- The level the requester has for the request at this broker. -/
def level (a : Hop) : Option PermissionLevel := do
  let path ← requestPath a.req
  a.site.permissionOnPath a.link a.req path

/-- The request of `b` is the one `a` sends on. -/
def Sends (a b : Hop) : Prop := ∃ d, a.site.Forwards a.link a.req d b.req a.method

/-- The permit of the request itself is a level that the permission lists give the requester. -/
def PermitCovered (a : Hop) : Prop :=
  ∃ path permission permit, requestPath a.req = some path ∧ a.site.getPermission path a.link = some permission ∧
    a.req.get (cstr "permit") = some (.string permit) ∧ permissionStrLevel (some permit) ≤ permission

/-- An invoke request, a requester with config permission, or a permit that needs no lowering. -/
def Holds (a : Hop) : Prop := a.method = .invoke ∨ a.level = some .config ∨ a.PermitCovered

theorem level_eq_some {a : Hop} {l : PermissionLevel} (h : a.level = some l) :
    ∃ path permission, requestPath a.req = some path ∧ a.site.getPermission path a.link = some permission ∧
      l = permission.cap (maxPermit a.req) := by
  simp only [level, Site.permissionOnPath, Option.bind_eq_bind, Option.bind_eq_some_iff] at h
  obtain ⟨path, hpath, permission, hpermission, h⟩ := h
  exact ⟨path, permission, hpath, hpermission, (Option.some.inj h).symm⟩

/-- No requester has more than config. -/
theorem level_le {a : Hop} {l : PermissionLevel} (h : a.level = some l) : l ≤ .config := by
  obtain ⟨path, permission, -, hpermission, rfl⟩ := level_eq_some h
  exact Nat.le_trans (PermissionLevel.cap_le_left _ _) (Site.getPermission_le hpermission)

/-- What is sent on has a level here. -/
theorem Sends.level {a b : Hop} (h : a.Sends b) : ∃ l, a.level = some l := by
  obtain ⟨d, h⟩ := h
  cases hm : a.method with
  | invoke =>
    rw [hm] at h
    obtain ⟨path, -, permission, -, hpath, -, hpermission, -⟩ := Site.brokerMsgHandleInvoke_forward h
    exact ⟨permission, by simp [Hop.level, hpath, hpermission]⟩
  | set =>
    rw [hm] at h
    obtain ⟨replies, h⟩ := h
    obtain ⟨path, -, permission, -, -, hpath, -, hpermission, -⟩ := Site.brokerMsgHandleSet_forward h
    exact ⟨permission, by simp [Hop.level, hpath, hpermission]⟩

/-- An invoke request is always attenuated: its permit is written anew. -/
theorem attenuated_invoke {a b : Hop} {l : PermissionLevel} (hm : a.method = .invoke) (h : a.Sends b)
    (hl : a.level = some l) : Attenuated l b.req := by
  intro hlt
  obtain ⟨d, h⟩ := h
  rw [hm] at h
  obtain ⟨path, out, permission, node, hpath, -, hpermission, -, -, hreq⟩ := Site.brokerMsgHandleInvoke_forward h
  have hpl : permission = l := by
    simp only [Hop.level, hpath, hpermission, Option.bind_eq_bind, Option.bind_some, Option.some.injEq] at hl
    exact hl
  subst hpl
  refine ⟨permissionLevelStr permission, ?_, ?_⟩
  · obtain ⟨members, hobj⟩ := object_of_requestPath hpath
    rw [hreq, hobj]
    unfold Site.sendInvokeRequest
    rw [if_pos hlt, Json.set_object, Json.set_object, Json.get_set_self]
  · rw [permissionStrLevel_name (Nat.le_of_lt hlt)]
    exact Nat.le_refl _

/-- A set request goes on with the permit it came with. -/
theorem permit_set {a b : Hop} (hm : a.method = .set) (h : a.Sends b) :
    b.req.get (cstr "permit") = a.req.get (cstr "permit") := by
  obtain ⟨d, h⟩ := h
  rw [hm] at h
  obtain ⟨replies, h⟩ := h
  obtain ⟨path, out, permission, node, rid, -, -, -, -, hreq⟩ := Site.brokerMsgHandleSet_forward h
  rw [hreq, Json.get_set_ne _ (by decide), Json.get_set_ne _ (by decide)]

theorem attenuated_iff {a b : Hop} {l : PermissionLevel} (h : a.Sends b) (hl : a.level = some l) :
    Attenuated l b.req ↔ a.Holds := by
  obtain ⟨path, permission, hpath, hpermission, hcap⟩ := level_eq_some hl
  constructor
  · intro hatt
    cases hm : a.method with
    | invoke => exact .inl hm
    | set =>
      by_cases hlt : l < .config
      · obtain ⟨permit, hpermit, hle⟩ := hatt hlt
        rw [permit_set hm h] at hpermit
        refine .inr (.inr ⟨path, permission, permit, hpath, hpermission, hpermit, Nat.le_trans hle ?_⟩)
        rw [hcap]
        exact PermissionLevel.cap_le_left _ _
      · exact .inr (.inl (hl.trans (congrArg some
          (PermissionLevel.toNat_inj (Nat.le_antisymm (level_le hl) (Nat.not_lt.mp hlt))))))
  · rintro (hm | hconfig | ⟨path', permission', permit, hpath', hpermission', hpermit, hle⟩)
    · exact attenuated_invoke hm h hl
    · intro hlt
      cases hl.symm.trans hconfig
      exact absurd hlt (Nat.lt_irrefl _)
    · cases hm : a.method with
      | invoke => exact attenuated_invoke hm h hl
      | set =>
        obtain rfl := Option.some.inj (hpath'.symm.trans hpath)
        obtain rfl := Option.some.inj (hpermission'.symm.trans hpermission)
        intro _
        refine ⟨permit, (permit_set hm h).trans hpermit, ?_⟩
        have hmax : maxPermit a.req = permissionStrLevel (some permit) := by simp [maxPermit, hpermit]
        rw [hcap, hmax]
        exact PermissionLevel.le_cap hle (Nat.le_refl _)

/-- One broker further the requester has no higher level. -/
theorem level_sends {a b : Hop} {l l' : PermissionLevel} (h : a.Sends b) (hholds : a.Holds) (hl : a.level = some l)
    (hl' : b.level = some l') : l' ≤ l := by
  by_cases hlt : l < .config
  · obtain ⟨path, permission, -, -, rfl⟩ := level_eq_some hl'
    have hmax := ((attenuated_iff h hl).mpr hholds).maxPermit_le hlt
    exact Nat.le_trans (PermissionLevel.cap_le_right _ _) hmax
  · exact Nat.le_trans (level_le hl') (Nat.not_lt.mp hlt)

/-- Along a chain of brokers the level of the requester does not grow. -/
theorem level_chain {a b : Hop} (h : Relation.ReflTransGen (fun a b => a.Sends b ∧ a.Holds) a b) :
    ∀ l l', a.level = some l → b.level = some l' → l' ≤ l := by
  induction h with
  | refl =>
    intro l l' hl hl'
    cases hl.symm.trans hl'
    exact Nat.le_refl _
  | tail _ hstep ih =>
    intro l l' hl hl'
    -- the broker before the last one has sent the request on, so it knows a level
    obtain ⟨lc, hlc⟩ := hstep.1.level
    exact Nat.le_trans (level_sends hstep.1 hstep.2 hlc hl') (ih l lc hl hlc)

end Hop

/-- A request that is passed on is attenuated exactly when it is an invoke request, the requester has config
    permission, or its permit already is a level that the permission lists give the requester. Along any chain
    of brokers that meet this, the level of the requester does not grow. -/
theorem attenuation_exact {a : Hop} {l : PermissionLevel} (hl : a.level = some l) :
    (∀ b, a.Sends b → (Attenuated l b.req ↔ a.Holds)) ∧
      ∀ b l', Relation.ReflTransGen (fun a b => a.Sends b ∧ a.Holds) a b → b.level = some l' → l' ≤ l := by
  constructor
  · intro b h
    exact Hop.attenuated_iff h hl
  · intro b l' h hl'
    exact Hop.level_chain h l l' hl hl'

theorem read_le_config : PermissionLevel.read ≤ .config := by decide

theorem config_le_config : PermissionLevel.config ≤ .config := by decide

/-- A broker with two links, whose root has one permission list for everybody. -/
def openSite (base : Broker Json) (level : PermissionLevel) (h : level ≤ .config) : Site where
  base := base
  permissionList := fun ref => if ref = .regular base.root then some [⟨cstr "default", level, h⟩] else none
  metadata := fun _ => .empty
  groups := fun _ => none
  childrenPermissions := fun _ => []
  permissionGroups := fun _ => [cstr "r"]
  linkData := fun _ => none
  listCache := fun _ => none
  listCaches := fun _ => .empty

/-- The two links `r` and `x` connect. -/
def twoLinks : List (Event Json) :=
  [.initDownstream (cstr "r"), .initDownstream (cstr "x"), .connect 0, .connect 1]

/-- A request of the link `r` for a path below the link `x`. -/
def pathRequest (path : String) (permit : Option String) : Json :=
  .object ([(cstr "rid", .integer 1), (cstr "path", .string (cstr path)), (cstr "value", .integer 7)] ++
    (permit.map (fun permit => (cstr "permit", Json.string (cstr permit)))).toList)

/-- The request that the link `r` sets a value with write permission on, and the one the link `x` gets. -/
def setHop (base : Broker Json) (permit : Option String) : Hop :=
  ⟨openSite base .write (by decide), 0, .set, pathRequest "/downstream/x/a" permit⟩

/-- The request that a hop sends on to the link `x`. -/
def Hop.sent (a : Hop) : Option Json :=
  match a.site.brokerMsgHandleSet a.link a.req with
  | some ⟨_, .forward 1 req⟩ => some req
  | _ => none

theorem Hop.sends_of_sent {a : Hop} {req : Json} (hm : a.method = .set) (h : a.sent = some req) :
    a.Sends { a with req := req } := by
  unfold Hop.sent at h
  split at h
  · rename_i replies req' heq
    cases h
    refine ⟨1, ?_⟩
    show a.site.Forwards a.link a.req 1 req a.method
    rw [hm]
    exact ⟨replies, heq⟩
  · cases h

theorem attenuation_exact_permit : ∃ a b : Hop,
    a.Sends b ∧ (Attenuated .write b.req ↔ a.Holds) ∧ ∀ l', b.level = some l' → l' ≤ .write := by
  obtain ⟨base, -, hcheck⟩ := Reach.of_eval (Broker.step Broker.smallConfig) Broker.brokerInit twoLinks
    (fun base => (setHop base (some "write")).sent.isSome ∧
      (setHop base (some "write")).level = some .write ∧
      (setHop base (some "write")).site.getPermission (cstr "/downstream/x/a") 0 = some .write) (by decide)
  simp only [Bool.decide_and, Bool.and_eq_true, decide_eq_true_eq] at hcheck
  obtain ⟨hsent, hlevel, hpermission⟩ := hcheck
  obtain ⟨req, hreq⟩ := Option.isSome_iff_exists.mp hsent
  have hsends := Hop.sends_of_sent (a := setHop base (some "write")) rfl hreq
  have hholds : (setHop base (some "write")).Holds :=
    .inr (.inr ⟨_, _, cstr "write", rfl, hpermission, rfl, by decide⟩)
  have hexact := attenuation_exact hlevel
  exact ⟨_, _, hsends, hexact.1 _ hsends, fun l' => hexact.2 _ l' (.single ⟨hsends, hholds⟩)⟩

/-- A set request of a link with write permission reaches the responder without a permit. -/
theorem attenuation_not_exact : ∃ a b : Hop, ∃ l,
    Reach (Broker.step Broker.smallConfig) (fun _ _ => True) (fun σ => Broker.brokerInit = some σ) a.site.base ∧
      a.Sends b ∧ a.level = some l ∧ ¬Attenuated l b.req := by
  obtain ⟨base, hreach, hcheck⟩ := Reach.of_eval (Broker.step Broker.smallConfig) Broker.brokerInit twoLinks
    (fun base => (setHop base none).sent.any (fun req => (req.get (cstr "permit")).isNone) ∧
      (setHop base none).level = some .write) (by decide)
  simp only [Bool.decide_and, Bool.and_eq_true, decide_eq_true_eq] at hcheck
  obtain ⟨hsent, hlevel⟩ := hcheck
  obtain ⟨req, hreq, hnone⟩ := (Option.any_eq_true _ _).mp hsent
  refine ⟨setHop base none, { setHop base none with req := req }, .write, hreach, Hop.sends_of_sent rfl hreq,
    hlevel, fun hatt => ?_⟩
  obtain ⟨permit, hpermit, -⟩ := hatt (by decide)
  rw [Option.isNone_iff_eq_none.mp hnone] at hpermit
  cases hpermit

/-! ## The path -/

/-- The four methods whose path is translated for the responder. -/
inductive RouteMethod
  | list | subscribe | invoke | set
  deriving DecidableEq

namespace Site

/-- A request for `path` on the link of `L` goes to the downstream node `d` under the path `out`. For list and
    subscribe this is the remote path of the stream, whether or not the link is there. -/
def Routes (σ : Site) (L : DownId) (path : CString) (d : DownId) (out : CString) : RouteMethod → Prop
  | .list => ∃ req, requestPath req = some path ∧ σ.brokerMsgHandleList L req = some (.dslink d out)
  | .subscribe => σ.subscribeTarget path = some (d, out)
  | .invoke => ∃ req req', requestPath req = some path ∧ σ.Forwards L req d req' .invoke ∧
      requestPath req' = some out
  | .set => ∃ req req', requestPath req = some path ∧ σ.Forwards L req d req' .set ∧ requestPath req' = some out

end Site

/-- The path of a responder for the text after the path of its node. -/
def respPath (rest : CString) : CString := if rest = [] then [slash] else rest

/-- When the path comes out right for the node called `name`. List looks for the slash and the name that stand
    for the node itself, the other methods keep them. -/
def RouteMethod.TranslatesRight (m : RouteMethod) (name rest : CString) : Prop :=
  slash ∉ name ∧ match m with
    | .list => name = [] ∨ rest ≠ slash :: name
    | _ => rest ≠ []

namespace Site

variable {σ : Site} {L d : DownId} {path out : CString}

/-- The text that a forwarded request has for its path. -/
theorem requestPath_set {req value : Json} {path : CString} (h : requestPath req = some path) {out : CString} :
    requestPath ((req.set (cstr "rid") value).set (cstr "path") (.string out)) = some out := by
  obtain ⟨members, rfl⟩ := object_of_requestPath h
  rw [requestPath, Json.set_object, Json.get_set_self]
  rfl

theorem requestPath_sendInvokeRequest {req : Json} {path out : CString} (h : requestPath req = some path) (rid : Nat)
    (level : PermissionLevel) : requestPath (sendInvokeRequest req rid out level) = some out := by
  unfold sendInvokeRequest
  split
  · unfold requestPath
    rw [Json.get_set_ne _ (by decide)]
    exact requestPath_set h
  · exact requestPath_set h

/-- A list request for a downstream node. -/
theorem brokerMsgHandleList_dslink {req : Json} (hpath : requestPath req = some path)
    (h : σ.brokerMsgHandleList L req = some (.dslink d out)) : ∃ out' node,
    σ.base.brokerNodeGet path = some (some (.downstream d, out')) ∧ σ.base.dnode.get d = some node ∧
      out = if out'.head? = some slash ∧ node.name = out'.tail then [slash] else out' := by
  unfold brokerMsgHandleList at h
  split at h
  · rename_i path' _ hpath' _
    obtain rfl := Option.some.inj (hpath'.symm.trans hpath)
    simp only [Option.bind_eq_bind, Option.bind_eq_some_iff] at h
    obtain ⟨found, hfound, permission, -, h⟩ := h
    split at h
    · cases h
    · split at h
      · cases h
      · simp only [Option.bind_eq_some_iff] at h
        obtain ⟨node, hd, h⟩ := h
        cases h
        exact ⟨_, node, hfound, hd, rfl⟩
      · split at h <;> cases h
  · cases h

/-- What the handlers pass on is what `broker_node_get` stores, except for list. -/
theorem Routes.get {m : RouteMethod} (h : σ.Routes L path d out m) : ∃ out',
    σ.base.brokerNodeGet path = some (some (.downstream d, out')) ∧ (m ≠ .list → out = out') := by
  cases m with
  | list =>
    obtain ⟨req, hpath, h⟩ := h
    obtain ⟨out', node, hget, -⟩ := brokerMsgHandleList_dslink hpath h
    exact ⟨out', hget, fun hm => absurd rfl hm⟩
  | subscribe =>
    have h : σ.subscribeTarget path = some (d, out) := h
    unfold subscribeTarget at h
    split at h
    · rename_i e out' hget
      cases h
      exact ⟨out, hget, fun _ => rfl⟩
    · cases h
  | invoke =>
    obtain ⟨req, req', hpath, hfwd, hpath'⟩ := h
    obtain ⟨path', out', permission, node, hpath1, hget, -, -, -, rfl⟩ := brokerMsgHandleInvoke_forward hfwd
    obtain rfl := Option.some.inj (hpath1.symm.trans hpath)
    rw [requestPath_sendInvokeRequest hpath] at hpath'
    exact ⟨out', hget, fun _ => (Option.some.inj hpath').symm⟩
  | set =>
    obtain ⟨req, req', hpath, ⟨replies, hfwd⟩, hpath'⟩ := h
    obtain ⟨path', out', permission, node, rid, hpath1, hget, -, -, rfl⟩ := brokerMsgHandleSet_forward hfwd
    obtain rfl := Option.some.inj (hpath1.symm.trans hpath)
    rw [requestPath_set hpath] at hpath'
    exact ⟨out', hget, fun _ => (Option.some.inj hpath').symm⟩

/-- Where a request for a path of the downstream node `d` goes, if the name of the node has no slash. -/
theorem Routes.link {m : RouteMethod} {top name rest : CString} {e : DownId} {node : DownstreamNode Json}
    (h : σ.Routes L (Broker.linkPathOf top name ++ rest) e out m) (htree : σ.base.TreeOk)
    (hl : σ.base.LinkAt top name d) (hd : σ.base.dnode.get d = some node) (htop : slash ∉ top) (hne : top ≠ [])
    (hname : slash ∉ name) (hrest : rest = [] ∨ rest.head? = some slash) (hself : name ≠ [] ∨ rest ≠ []) :
    e = d ∧ out = if m = .list ∧ name ≠ [] ∧ rest = slash :: name then [slash]
      else if rest = [] then (if m = .list then [slash] else slash :: name) else rest := by
  have hlink := Broker.brokerNodeGet_link hl htop hne hname hrest hself
  have hnode := (hl.path htree hd).2
  by_cases hm : m = .list
  · subst hm
    obtain ⟨req, hpath, h⟩ := h
    obtain ⟨out', node', hget, hd', hout⟩ := brokerMsgHandleList_dslink hpath h
    rw [hlink] at hget
    cases hget
    cases hd.symm.trans hd'
    refine ⟨rfl, ?_⟩
    rw [hout, hnode]
    rcases hrest with rfl | hrest
    · simp
    · obtain ⟨rest', rfl⟩ : ∃ rest', rest = slash :: rest' := by
        cases rest with
        | nil => cases hrest
        | cons c rest' => exact ⟨rest', by rw [Option.some.inj hrest]⟩
      by_cases hr : rest' = name
      · subst hr
        cases rest' <;> simp
      · simp [hr, Ne.symm hr]
  · obtain ⟨out', hget, hout⟩ := h.get
    rw [hlink] at hget
    cases hget
    refine ⟨rfl, (hout hm).trans ?_⟩
    simp [hm]

end Site

/-- The text after the path of a node, without a slash that ends it there. -/
def trimmed (rest : CString) : CString := if rest = [slash] then [] else rest

theorem respPath_eq_iff {rest rest' : CString} : respPath rest = respPath rest' ↔ trimmed rest = trimmed rest' := by
  unfold respPath trimmed
  grind

/-- Where a request for a path of a downstream node goes, if it goes to a link: to that node and with the path
    without the path of the node, exactly when the name of the node has no slash and the method keeps the text
    after it. Two requests for which that holds go out with one path exactly when they came with one path. -/
theorem path_translation {cfg : Config} {ok : Broker Json → Event Json → Prop} {σ : Site}
    (hreach : Reach (Broker.step cfg) ok (fun σ => Broker.brokerInit = some σ) σ.base) {top name : CString}
    (htop : top = cstr "downstream" ∨ top = cstr "upstream") {d : DownId} (hl : σ.base.LinkAt top name d)
    {node : DownstreamNode Json} (hd : σ.base.dnode.get d = some node) :
    (∀ L m rest e out, (rest = [] ∨ rest.head? = some slash) → σ.Routes L (node.path ++ rest) e out m →
      ((e = d ∧ out = respPath rest) ↔ m.TranslatesRight name rest)) ∧
    ∀ L L' m m' rest rest' e e' out out', (rest = [] ∨ rest.head? = some slash) →
      (rest' = [] ∨ rest'.head? = some slash) → σ.Routes L (node.path ++ rest) e out m →
      σ.Routes L' (node.path ++ rest') e' out' m' → m.TranslatesRight name rest →
      m'.TranslatesRight name rest' → (out = out' ↔ trimmed rest = trimmed rest') := by
  have htree := Broker.reach_tree hreach
  obtain ⟨hpath, hnodeName⟩ := hl.path htree hd
  have hslash : slash ∉ top ∧ top ≠ [] := by
    rcases htop with rfl | rfl <;> decide
  have hmain : ∀ L m rest e out, (rest = [] ∨ rest.head? = some slash) → σ.Routes L (node.path ++ rest) e out m →
      ((e = d ∧ out = respPath rest) ↔ m.TranslatesRight name rest) := by
    intro L m rest e out hrest h
    obtain ⟨out', hget, -⟩ := h.get
    by_cases hname : slash ∈ name
    · -- a name with a slash is never looked up as one segment
      refine ⟨fun hright => ?_, fun hright => absurd hname hright.1⟩
      rw [hright.1] at hget
      exact absurd (hnodeName ▸ hname) (Broker.brokerNodeGet_slash_free htree hget hd)
    · rw [hpath] at h hget
      by_cases hself : name ≠ [] ∨ rest ≠ []
      · obtain ⟨rfl, hout⟩ := h.link htree hl hd hslash.1 hslash.2 hname hrest hself
        rw [hout]
        cases m <;> simp [RouteMethod.TranslatesRight, hname, respPath] <;> grind
      · -- the path of a node without a name is the one of its parent with a slash
        obtain ⟨rfl, rfl⟩ : name = [] ∧ rest = [] := by simpa using hself
        obtain ⟨p, hparent⟩ := Broker.brokerNodeGet_link_nameless hl hslash.1 hslash.2
        rw [List.append_nil, hparent] at hget
        cases hget
  refine ⟨hmain, ?_⟩
  intro L L' m m' rest rest' e e' out out' hrest hrest' h h' hright hright'
  rw [((hmain L m rest e out hrest h).mpr hright).2, ((hmain L' m' rest' e' out' hrest' h').mpr hright').2]
  exact respPath_eq_iff

/-- An invoke request of the link `r`. -/
def invokeHop (base : Broker Json) (path : String) : Hop :=
  ⟨openSite base .write (by decide), 0, .invoke, pathRequest path none⟩

/-- The path an invoke request reaches the link `x` with. -/
def Hop.invoked (a : Hop) : Option CString :=
  match a.site.brokerMsgHandleInvoke a.link a.req with
  | some (.forward 1 req) => requestPath req
  | _ => none

theorem routes_of_invoked {base : Broker Json} {path : String} {out : CString}
    (h : (invokeHop base path).invoked = some out) :
    (openSite base .write (by decide)).Routes 0 (cstr path) 1 out .invoke := by
  unfold Hop.invoked at h
  split at h
  · rename_i req heq
    exact ⟨pathRequest path none, req, rfl, heq, h⟩
  · cases h

/-- The stream that a list request of the link `r` goes to. -/
def Hop.listed (a : Hop) : Option (DownId × CString) :=
  match a.site.brokerMsgHandleList a.link a.req with
  | some (.dslink d out) => some (d, out)
  | _ => none

theorem routes_of_listed {base : Broker Json} {path : String} {d : DownId} {out : CString}
    (h : (invokeHop base path).listed = some (d, out)) :
    (openSite base .write (by decide)).Routes 0 (cstr path) d out .list := by
  unfold Hop.listed at h
  split at h
  · rename_i d' out' heq
    cases h
    exact ⟨pathRequest path none, rfl, heq⟩
  · cases h

theorem path_translation_invoke : ∃ (σ : Site) (out : CString), σ.Routes 0 (cstr "/downstream/x/a") 1 out .invoke ∧
    ((1 = 1 ∧ out = cstr "/a") ↔ RouteMethod.TranslatesRight .invoke (cstr "x") (cstr "/a")) := by
  obtain ⟨base, hreach, hcheck⟩ := Reach.of_eval (Broker.step Broker.smallConfig) Broker.brokerInit twoLinks
    (fun base => (invokeHop base "/downstream/x/a").invoked.isSome ∧
      (base.node.get base.root).bind (fun root => root.children.get (cstr "downstream")) = some (.regular 7) ∧
      (base.node.get 7).bind (fun parent => parent.children.get (cstr "x")) = some (.downstream 1) ∧
      (base.dnode.get 1).map DownstreamNode.path = some (cstr "/downstream/x")) (by decide)
  simp only [Bool.decide_and, Bool.and_eq_true, decide_eq_true_eq] at hcheck
  obtain ⟨hinvoked, htop, hname, hd⟩ := hcheck
  obtain ⟨out, hout⟩ := Option.isSome_iff_exists.mp hinvoked
  obtain ⟨node, hnode, hpath⟩ := Option.map_eq_some_iff.mp hd
  have hl : base.LinkAt (cstr "downstream") (cstr "x") 1 := .of_get htop hname (by rw [hnode]; rfl)
  have hroute := routes_of_invoked hout
  refine ⟨_, out, hroute, ?_⟩
  apply (path_translation (σ := openSite base .write (by decide)) hreach (.inl rfl) hl hnode).1 0 .invoke (cstr "/a")
  · exact .inr rfl
  · rw [hpath]
    exact hroute

/-- An invoke request for the path of the link `x` reaches it with the path `/x`, and list requests for that path
    and for the node `x` below it share one stream. -/
theorem path_not_translated : ∃ σ : Site,
    Reach (Broker.step Broker.smallConfig) (fun _ _ => True) (fun σ => Broker.brokerInit = some σ) σ.base ∧
      (σ.base.dnode.get 1).map DownstreamNode.path = some (cstr "/downstream/x") ∧
      σ.Routes 0 (cstr "/downstream/x") 1 (cstr "/x") .invoke ∧
      σ.Routes 0 (cstr "/downstream/x") 1 (cstr "/") .list ∧
      σ.Routes 0 (cstr "/downstream/x/x") 1 (cstr "/") .list := by
  obtain ⟨base, hreach, hcheck⟩ := Reach.of_eval (Broker.step Broker.smallConfig) Broker.brokerInit twoLinks
    (fun base => (base.dnode.get 1).map DownstreamNode.path = some (cstr "/downstream/x") ∧
      (invokeHop base "/downstream/x").invoked = some (cstr "/x") ∧
      (invokeHop base "/downstream/x").listed = some (1, cstr "/") ∧
      (invokeHop base "/downstream/x/x").listed = some (1, cstr "/")) (by decide)
  simp only [Bool.decide_and, Bool.and_eq_true, decide_eq_true_eq] at hcheck
  obtain ⟨hd, hinvoked, hlisted, hlisted'⟩ := hcheck
  exact ⟨openSite base .write (by decide), hreach, hd, routes_of_invoked hinvoked, routes_of_listed hlisted,
    routes_of_listed hlisted'⟩

end DSLink
