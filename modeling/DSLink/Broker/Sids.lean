import DSLink.Broker.Connect
import DSLink.Broker.Live

/-!
# `Broker.Sids` — the sids a link's streams are known by

`broker_subscribe_remote` hands a stream the next sid of its node and files it in `resp_sub_streams` and in
`resp_sub_sids`. The counter restarts at 0 after `INT32_MAX` and nothing looks at what is still in use. `Sids` is
the part of the state this is about and `Sids.Ok` says that both maps list the streams of the node, each under
its own sid. A new stream keeps this when its sid is free.

## Contents
- `Sids`, `Sids.Ok`, `Sids.drop`, `Sids.add`.
- `Broker.sids` and the functions that change no sid, free a stream, or add one.
- `SidsDrawn`: the sids an event hands out are free. `reach_sids`: every run of such events.
- `Cycling`, `resp_sids_not_fresh`: a run in which the counter restarts.
-/

namespace DSLink

variable {J : Type} {cfg : Config} {σ σ' : Broker J}

/-- A stream as its link knows it. -/
structure SidStream where
  respNode : NodeRef
  respSid : Nat
  remotePath : Option CString

/-- The two maps of a link, and its counter. -/
structure RespMaps where
  sid : Nat
  streams : CString → Option StreamId
  sids : Nat → Option StreamId

/-- All streams and the maps of all links. -/
@[ext] structure Sids where
  stream : StreamId → Option SidStream
  resp : DownId → Option RespMaps

/-- An entry, unless it is for `st`. -/
def butFor (st : StreamId) (r : Option StreamId) : Option StreamId := r.filter (fun t => decide (t ≠ st))

@[simp] theorem butFor_eq_some {st t : StreamId} {r : Option StreamId} :
    butFor st r = some t ↔ r = some t ∧ t ≠ st := by
  simp [butFor, Option.filter_eq_some_iff]

/-- A map that does not list `st` loses nothing. -/
theorem butFor_eq_self {st : StreamId} {r : Option StreamId} (h : r ≠ some st) : butFor st r = r := by
  cases r with
  | none => rfl
  | some t =>
    rw [butFor_eq_some]
    exact ⟨rfl, fun ht => h (congrArg some ht)⟩

/-- Erasing the only key of `st` takes `st` out of the map. -/
theorem get_erase_butFor {κ : Type} [DecidableEq κ] {m : AssocMap κ StreamId} {k : κ} {st : StreamId}
    (hk : m.get k = some st) (honly : ∀ q, m.get q = some st → q = k) (q : κ) :
    (m.erase k).get q = butFor st (m.get q) := by
  rw [AssocMap.get_erase]
  split
  · rename_i hq
    rw [hq, hk]
    simp [butFor, Option.filter]
  · rename_i hq
    exact (butFor_eq_self (fun hc => hq (honly q hc))).symm

/-- The next `n` sids of a link whose counter is `sid`. -/
def nextSids (sid : Nat) : Nat → List Nat
  | 0 => []
  | n + 1 => (Broker.incrSid sid).2 :: nextSids (Broker.incrSid sid).1 n

/-- The next `n` sids of a link are all different, and no stream has one of them. -/
def RespMaps.Fresh (r : RespMaps) (n : Nat) : Prop :=
  (nextSids r.sid n).Nodup ∧ ∀ sid ∈ nextSids r.sid n, r.sids sid = none

instance (r : RespMaps) (n : Nat) : Decidable (r.Fresh n) := inferInstanceAs (Decidable (_ ∧ _))

/-- The maps with a stream `st` for `p` under the next sid. -/
def RespMaps.add (r : RespMaps) (p : CString) (st : StreamId) : RespMaps where
  sid := (Broker.incrSid r.sid).1
  streams := Function.update r.streams p (some st)
  sids := Function.update r.sids (Broker.incrSid r.sid).2 (some st)

theorem RespMaps.Fresh.next {r : RespMaps} {n : Nat} (h : r.Fresh (n + 1)) :
    r.sids (Broker.incrSid r.sid).2 = none ∧ ∀ p st, (r.add p st).Fresh n := by
  obtain ⟨hnodup, hfree⟩ := h
  obtain ⟨hne, hnodup⟩ := List.nodup_cons.mp hnodup
  refine ⟨hfree _ List.mem_cons_self, fun p st => ⟨hnodup, ?_⟩⟩
  intro sid hsid
  have hother : sid ≠ (Broker.incrSid r.sid).2 := by
    rintro rfl
    exact hne hsid
  exact (Function.update_of_ne hother ..).trans (hfree sid (List.mem_cons_of_mem _ hsid))

/-- The paths out of a list that have no stream yet, each one once. -/
def newPaths (m : CString → Option StreamId) (paths : List CString) : List CString :=
  (paths.filter (fun p => (m p).isNone)).eraseDups

theorem newPaths_old {m : CString → Option StreamId} {p : CString} {paths : List CString} (hp : m p ≠ none) :
    newPaths m (p :: paths) = newPaths m paths := by
  unfold newPaths
  rw [List.filter_cons_of_neg (by simpa using hp)]

theorem newPaths_new {m : CString → Option StreamId} {p : CString} {paths : List CString} (hp : m p = none)
    (st : StreamId) : newPaths m (p :: paths) = p :: newPaths (Function.update m p (some st)) paths := by
  unfold newPaths
  rw [List.filter_cons_of_pos (by simp [hp]), List.eraseDups_cons, List.filter_filter]
  congr 2
  apply List.filter_congr
  intro q _
  rw [Function.update_apply]
  by_cases hq : q = p <;> simp [hq]

namespace Sids

/-- Both maps of every link list its streams, under their paths and their sids. -/
structure Ok (S : Sids) : Prop where
  streams : ∀ d r p st, S.resp d = some r → r.streams p = some st →
    ∃ x, S.stream st = some x ∧ x.respNode = .downstream d ∧ x.remotePath = some p
  sids : ∀ d r k st, S.resp d = some r → r.sids k = some st →
    ∃ x, S.stream st = some x ∧ x.respNode = .downstream d ∧ x.respSid = k
  live : ∀ st x d, S.stream st = some x → x.respNode = .downstream d →
    ∃ r p, S.resp d = some r ∧ x.remotePath = some p ∧ r.streams p = some st ∧ r.sids x.respSid = some st

/-- The stream `st` goes, out of all maps. -/
def drop (S : Sids) (st : StreamId) : Sids where
  stream := Function.update S.stream st none
  resp := fun d => (S.resp d).map (fun r =>
    { r with streams := fun p => butFor st (r.streams p), sids := fun k => butFor st (r.sids k) })

/-- What may be a stream goes. -/
def dropAny (S : Sids) (st : Option StreamId) : Sids := st.elim S S.drop

/-- The link of `d` with the maps `r` gets the stream `st` for `p` under its next sid. -/
def add (S : Sids) (d : DownId) (r : RespMaps) (p : CString) (st : StreamId) : Sids where
  stream := Function.update S.stream st (some ⟨.downstream d, (Broker.incrSid r.sid).2, some p⟩)
  resp := Function.update S.resp d (some (r.add p st))

variable {S : Sids}

theorem Ok.congr {S' : Sids} (h : S.Ok) (hs : S' = S) : S'.Ok := by
  rw [hs]
  exact h

theorem Ok.drop (h : S.Ok) (st : StreamId) : (S.drop st).Ok where
  streams := by
    intro d r' p t hr' hp
    obtain ⟨r, hr, rfl⟩ := Option.map_eq_some_iff.mp hr'
    obtain ⟨hp, hne⟩ := butFor_eq_some.mp hp
    obtain ⟨x, hx, hx'⟩ := h.streams d r p t hr hp
    exact ⟨x, (Function.update_of_ne hne ..).trans hx, hx'⟩
  sids := by
    intro d r' k t hr' hk
    obtain ⟨r, hr, rfl⟩ := Option.map_eq_some_iff.mp hr'
    obtain ⟨hk, hne⟩ := butFor_eq_some.mp hk
    obtain ⟨x, hx, hx'⟩ := h.sids d r k t hr hk
    exact ⟨x, (Function.update_of_ne hne ..).trans hx, hx'⟩
  live := by
    intro t x d hx hd
    have hx : Function.update S.stream st none t = some x := hx
    rw [Function.update_apply] at hx
    split at hx
    · cases hx
    · rename_i hne
      obtain ⟨r, p, hr, hp, hstreams, hsids⟩ := h.live t x d hx hd
      refine ⟨_, p, congrArg (Option.map _) hr, hp, ?_, ?_⟩
      · exact butFor_eq_some.mpr ⟨hstreams, hne⟩
      · exact butFor_eq_some.mpr ⟨hsids, hne⟩

theorem Ok.dropAny (h : S.Ok) (st : Option StreamId) : (S.dropAny st).Ok := by
  cases st with
  | none => exact h
  | some st => exact h.drop st

/-- A new stream under a path and a sid that are not in use. -/
theorem Ok.add (h : S.Ok) {d : DownId} {r : RespMaps} {p : CString} {st : StreamId} (hr : S.resp d = some r)
    (hst : S.stream st = none) (hp : r.streams p = none) (hsid : r.sids (Broker.incrSid r.sid).2 = none) :
    (S.add d r p st).Ok := by
  have hnew : (S.add d r p st).stream st = some ⟨.downstream d, (Broker.incrSid r.sid).2, some p⟩ :=
    Function.update_self ..
  have hold : ∀ {t x}, S.stream t = some x → (S.add d r p st).stream t = some x := by
    intro t x hx
    have hne : t ≠ st := by
      rintro rfl
      rw [hst] at hx
      cases hx
    exact (Function.update_of_ne hne ..).trans hx
  constructor
  · intro e r' q t hr' hq
    have hr' : Function.update S.resp d _ e = some r' := hr'
    rw [Function.update_apply] at hr'
    split at hr'
    · rename_i he
      obtain rfl := Option.some.inj hr'
      have hq : Function.update r.streams p (some st) q = some t := hq
      rw [Function.update_apply] at hq
      split at hq
      · rename_i hqp
        obtain rfl := Option.some.inj hq
        exact ⟨_, hnew, by rw [he], by rw [hqp]⟩
      · obtain ⟨x, hx, hx'⟩ := h.streams d r q t hr hq
        exact ⟨x, hold hx, by rw [he]; exact hx'⟩
    · obtain ⟨x, hx, hx'⟩ := h.streams e r' q t hr' hq
      exact ⟨x, hold hx, hx'⟩
  · intro e r' k t hr' hk
    have hr' : Function.update S.resp d _ e = some r' := hr'
    rw [Function.update_apply] at hr'
    split at hr'
    · rename_i he
      obtain rfl := Option.some.inj hr'
      have hk : Function.update r.sids (Broker.incrSid r.sid).2 (some st) k = some t := hk
      rw [Function.update_apply] at hk
      split at hk
      · rename_i hkk
        obtain rfl := Option.some.inj hk
        exact ⟨_, hnew, by rw [he], hkk.symm⟩
      · obtain ⟨x, hx, hx'⟩ := h.sids d r k t hr hk
        exact ⟨x, hold hx, by rw [he]; exact hx'⟩
    · obtain ⟨x, hx, hx'⟩ := h.sids e r' k t hr' hk
      exact ⟨x, hold hx, hx'⟩
  · intro t x e hx he
    have hx : Function.update S.stream st _ t = some x := hx
    rw [Function.update_apply] at hx
    split at hx
    · rename_i ht
      obtain rfl := Option.some.inj hx
      cases he
      refine ⟨_, p, Function.update_self .., rfl, ?_, ?_⟩
      · rw [ht]
        exact Function.update_self ..
      · rw [ht]
        exact Function.update_self ..
    · obtain ⟨r', q, hr', hq, hstreams, hsids⟩ := h.live t x e hx he
      by_cases hed : e = d
      · subst hed
        cases hr.symm.trans hr'
        -- the entries of the old stream stand under another path and another sid
        have hqp : q ≠ p := by
          rintro rfl
          rw [hp] at hstreams
          cases hstreams
        have hkk : x.respSid ≠ (Broker.incrSid r.sid).2 := by
          intro hk
          rw [hk, hsid] at hsids
          cases hsids
        refine ⟨_, q, Function.update_self .., hq, ?_, ?_⟩
        · exact (Function.update_of_ne hqp ..).trans hstreams
        · exact (Function.update_of_ne hkk ..).trans hsids
      · exact ⟨r', q, (Function.update_of_ne hed ..).trans hr', hq, hstreams, hsids⟩

/-- Only maps that list nothing of a link can go with it. -/
theorem Ok.dropMaps (h : S.Ok) {d : DownId} {r : RespMaps} (hr : S.resp d = some r)
    (hempty : ∀ p, r.streams p = none) : Ok { S with resp := Function.update S.resp d none } where
  streams := by
    intro e r' p st hr' hp
    have hr' : Function.update S.resp d none e = some r' := hr'
    rw [Function.update_apply] at hr'
    split at hr'
    · cases hr'
    · exact h.streams e r' p st hr' hp
  sids := by
    intro e r' k st hr' hk
    have hr' : Function.update S.resp d none e = some r' := hr'
    rw [Function.update_apply] at hr'
    split at hr'
    · cases hr'
    · exact h.sids e r' k st hr' hk
  live := by
    intro st x e hx he
    obtain ⟨r', p, hr', hp, hstreams, hsids⟩ := h.live st x e hx he
    have hne : e ≠ d := by
      rintro rfl
      cases hr.symm.trans hr'
      rw [hempty p] at hstreams
      cases hstreams
    exact ⟨r', p, (Function.update_of_ne hne ..).trans hr', hp, hstreams, hsids⟩

/-- A new link lists nothing. -/
theorem Ok.newMaps (h : S.Ok) {d : DownId} (hd : S.resp d = none) (sid : Nat) :
    Ok { S with resp := Function.update S.resp d (some ⟨sid, fun _ => none, fun _ => none⟩) } where
  streams := by
    intro e r' p st hr' hp
    have hr' : Function.update S.resp d _ e = some r' := hr'
    rw [Function.update_apply] at hr'
    split at hr'
    · obtain rfl := Option.some.inj hr'
      cases hp
    · exact h.streams e r' p st hr' hp
  sids := by
    intro e r' k st hr' hk
    have hr' : Function.update S.resp d _ e = some r' := hr'
    rw [Function.update_apply] at hr'
    split at hr'
    · obtain rfl := Option.some.inj hr'
      cases hk
    · exact h.sids e r' k st hr' hk
  live := by
    intro st x e hx he
    obtain ⟨r', p, hr', hp⟩ := h.live st x e hx he
    have hne : e ≠ d := by
      rintro rfl
      rw [hd] at hr'
      cases hr'
    exact ⟨r', p, (Function.update_of_ne hne ..).trans hr', hp⟩

/-- A new stream of a local node. -/
theorem Ok.addLocal (h : S.Ok) {st : StreamId} {x : SidStream} {n : NodeId} (hst : S.stream st = none)
    (hx : x.respNode = .regular n) : Ok { S with stream := Function.update S.stream st (some x) } := by
  have hold : ∀ {t y}, S.stream t = some y → Function.update S.stream st (some x) t = some y := by
    intro t y hy
    have hne : t ≠ st := by
      rintro rfl
      rw [hst] at hy
      cases hy
    exact (Function.update_of_ne hne ..).trans hy
  constructor
  · intro d r p t hr hp
    obtain ⟨y, hy, hy'⟩ := h.streams d r p t hr hp
    exact ⟨y, hold hy, hy'⟩
  · intro d r k t hr hk
    obtain ⟨y, hy, hy'⟩ := h.sids d r k t hr hk
    exact ⟨y, hold hy, hy'⟩
  · intro t y d hy hd
    have hy : Function.update S.stream st (some x) t = some y := hy
    rw [Function.update_apply] at hy
    split at hy
    · obtain rfl := Option.some.inj hy
      rw [hx] at hd
      cases hd
    · exact h.live t y d hy hd

end Sids

/-- A stream as its link knows it. -/
def BrokerSubStream.numbered (stream : BrokerSubStream J) : SidStream :=
  ⟨stream.respNode, stream.respSid, stream.remotePath⟩

/-- The maps of a link. -/
def DownstreamNode.respMaps (node : DownstreamNode J) : RespMaps :=
  ⟨node.sid, node.respSubStreams.get, node.respSubSids.get⟩

/-- Every call but the one that makes a stream for a link. -/
def Call.drawsNoSid : Call J → Prop
  | .newRemoteStream .. => False
  | _ => True

theorem Call.builds.drawsNoSid {c : Call J} (h : c.builds) : c.drawsNoSid := by
  cases c <;> trivial

namespace Broker

/-- The streams and maps of a state. -/
def sids (σ : Broker J) : Sids where
  stream st := (σ.stream.get st).map BrokerSubStream.numbered
  resp d := (σ.dnode.get d).map DownstreamNode.respMaps

theorem sids_stream {st : StreamId} {stream : BrokerSubStream J} (h : σ.stream.get st = some stream) :
    σ.sids.stream st = some stream.numbered := by
  simp [sids, h]

theorem sids_resp {d : DownId} {node : DownstreamNode J} (h : σ.dnode.get d = some node) :
    σ.sids.resp d = some node.respMaps := by
  simp [sids, h]

/-! ## Functions that change no sid -/

theorem sids_modDnode_same {d : DownId} {f : DownstreamNode J → DownstreamNode J}
    (hf : ∀ node ∈ σ.dnode.get d, (f node).respMaps = node.respMaps) : (σ.modDnode d f).sids = σ.sids := by
  ext1
  · rfl
  · funext e
    show ((σ.dnode.modify d f).get e).map _ = (σ.dnode.get e).map _
    rw [Heap.get_modify]
    split
    · rename_i he
      subst he
      rw [Option.map_map]
      apply Option.map_congr
      exact hf
    · rfl

theorem sids_modStream_same {st : StreamId} {f : BrokerSubStream J → BrokerSubStream J}
    (hf : ∀ stream, (f stream).numbered = stream.numbered) : (σ.modStream st f).sids = σ.sids := by
  ext1
  · funext t
    show ((σ.stream.modify st f).get t).map _ = (σ.stream.get t).map _
    rw [Heap.get_modify]
    split
    · rename_i ht
      rw [ht, Option.map_map]
      apply Option.map_congr
      intro stream _
      exact hf stream
    · rfl
  · rfl

theorem Frame.sids_stream {ps : List Part} (h : Frame ps σ σ') (hstreams : Part.streams ∉ ps) :
    σ'.sids.stream = σ.sids.stream := by
  have h1 : Heap.Rel (BrokerSubStream.Agree .streams) σ.stream σ'.stream := h _ hstreams
  funext st
  show (σ'.stream.get st).map _ = (σ.stream.get st).map _
  cases hg : σ.stream.get st with
  | none => rw [h1.get_none.mpr hg]
  | some stream =>
    obtain ⟨stream', hstream', hnode, hsid, hpath, -⟩ := h1.get hg
    rw [hstream']
    simp [BrokerSubStream.numbered, hnode, hsid, hpath]

theorem Frame.sids_resp {ps : List Part} (h : Frame ps σ σ') (hresp : Part.resp ∉ ps) :
    σ'.sids.resp = σ.sids.resp := by
  have h1 : Heap.Rel (DownstreamNode.Agree .resp) σ.dnode σ'.dnode := h _ hresp
  funext d
  show (σ'.dnode.get d).map _ = (σ.dnode.get d).map _
  cases hg : σ.dnode.get d with
  | none => rw [h1.get_none.mpr hg]
  | some node =>
    obtain ⟨node', hnode', -, hsid, hstreams, hsids⟩ := h1.get hg
    rw [hnode']
    simp [DownstreamNode.respMaps, hsid, hstreams, hsids]

/-- What touches neither streams nor the maps of links keeps the sids. -/
theorem Frame.sids {ps : List Part} (h : Frame ps σ σ') (hps : Part.streams ∉ ps ∧ Part.resp ∉ ps) :
    σ'.sids = σ.sids := Sids.ext (h.sids_stream hps.1) (h.sids_resp hps.2)

theorem sendSubscribeRequest_sids {d : DownId} {path : CString} {sid qos : Nat}
    (h : sendSubscribeRequest σ d path sid qos = some σ') : σ'.sids = σ.sids := by
  simp only [sendSubscribeRequest, DownstreamNode.wsSend, Option.bind_eq_bind, Option.bind_eq_some_iff,
    Option.map_eq_some_iff] at h
  obtain ⟨node, hd, node', ⟨link, -, rfl⟩, h⟩ := h
  obtain rfl := Option.some.inj h
  apply sids_modDnode_same
  intro node' hd'
  cases hd.symm.trans hd'
  rfl

theorem brokerMsgSendUnsubscribe_sids {d : DownId} {sid : Nat} (h : σ.brokerMsgSendUnsubscribe d sid = some σ') :
    σ'.sids = σ.sids := by
  simp only [brokerMsgSendUnsubscribe, DownstreamNode.wsSend, Option.bind_eq_bind, Option.bind_eq_some_iff] at h
  obtain ⟨node, hd, h⟩ := h
  split at h
  · cases h
    rfl
  · simp only [Option.bind_eq_some_iff, Option.map_eq_some_iff] at h
    obtain ⟨node', ⟨link, -, rfl⟩, h⟩ := h
    obtain rfl := Option.some.inj h
    apply sids_modDnode_same
    intro node' hd'
    cases hd.symm.trans hd'
    rfl

theorem brokerUpdateStreamQos_sids {st : Option StreamId} (h : brokerUpdateStreamQos σ st = some σ') :
    σ'.sids = σ.sids := by
  simp only [brokerUpdateStreamQos] at h
  split at h
  · cases h
    rfl
  · rename_i st
    simp only [Option.bind_eq_bind, Option.bind_eq_some_iff] at h
    obtain ⟨stream, -, h⟩ := h
    split at h
    · simp only [Option.bind_eq_some_iff] at h
      obtain ⟨maxQos, -, node, -, h⟩ := h
      have hmod : (σ.modStream st (fun stream => { stream with respQos := maxQos })).sids = σ.sids :=
        sids_modStream_same (fun _ => rfl)
      split at h
      · rw [sendSubscribeRequest_sids h, hmod]
      · cases h
        exact hmod
    · cases h
      rfl

theorem brokerUpdateSubQos_sids {s : SubId} {qos : Nat} (h : brokerUpdateSubQos σ s qos = some σ') :
    σ'.sids = σ.sids := by
  simp only [brokerUpdateSubQos, Option.bind_eq_bind, Option.bind_eq_some_iff] at h
  obtain ⟨req, -, h⟩ := h
  split at h
  · cases h
    rfl
  · simp only [Option.bind_eq_some_iff] at h
    obtain ⟨τ, hτ, υ, hυ, h⟩ := h
    obtain ⟨m, rfl⟩ := serializeIf_eq hτ
    obtain ⟨m', rfl⟩ := serializeIf_eq h
    show υ.sids = σ.sids
    rw [brokerUpdateStreamQos_sids hυ]
    rfl

theorem attach_sids (σ : Broker J) (s : SubId) (st : StreamId) (d : DownId) : (σ.attach s st d).sids = σ.sids :=
  sids_modStream_same (fun _ => rfl)

/-! ## Streams that go -/

theorem brokerStreamFree_sids {st : StreamId} (h : σ.sids.Ok) (hs : σ.brokerStreamFree st = some σ') :
    σ'.sids = σ.sids.drop st := by
  simp only [brokerStreamFree, Option.bind_eq_bind, Option.bind_eq_some_iff] at hs
  obtain ⟨stream, hst, hs⟩ := hs
  have hx := sids_stream hst
  have hfree : ∀ τ : Broker J, τ.sids = σ.sids → ∀ t,
      ((τ.stream.free st).get t).map BrokerSubStream.numbered = Function.update σ.sids.stream st none t := by
    intro τ hτ t
    rw [Heap.get_free, Function.update_apply, ← hτ]
    split <;> rfl
  split at hs
  · -- a remote stream
    rename_i d hd
    simp only [Option.bind_eq_some_iff] at hs
    obtain ⟨node, hnode, τ, hτ, υ, hυ, hs⟩ := hs
    obtain rfl := Option.some.inj hs
    have hυσ : υ.sids = σ.sids :=
      (brokerMsgSendUnsubscribe_sids hυ).trans ((Frame.detachRemote hτ).sids (by decide))
    obtain ⟨r, p, hr, hp, hstreams, hsids⟩ := h.live st _ d hx hd
    ext1
    · funext t
      exact hfree υ hυσ t
    · funext e
      show ((υ.dnode.modify d _).get e).map _ = (σ.sids.resp e).map _
      rw [← hυσ, Heap.get_modify]
      by_cases he : e = d
      · subst he
        rw [if_pos rfl, Option.map_map]
        show _ = ((υ.dnode.get e).map _).map _
        rw [Option.map_map]
        apply Option.map_congr
        intro node' hnode'
        have hr' : some r = some node'.respMaps := by
          rw [← hr, ← hυσ]
          exact sids_resp hnode'
        obtain rfl := Option.some.inj hr'
        have hpath : stream.remotePath.getD [] = p := by
          rw [show stream.remotePath = some p from hp]
          rfl
        -- the stream is listed under its own path and its own sid only
        simp only [Function.comp, DownstreamNode.respMaps, RespMaps.mk.injEq, true_and, hpath]
        constructor
        · funext q
          apply get_erase_butFor hstreams
          intro q hq
          obtain ⟨y, hy, -, hyp⟩ := h.streams e _ q st hr hq
          cases hx.symm.trans hy
          exact Option.some.inj (hyp.symm.trans hp)
        · funext k
          apply get_erase_butFor hsids
          intro k hk
          obtain ⟨y, hy, -, hyk⟩ := h.sids e _ k st hr hk
          cases hx.symm.trans hy
          exact hyk.symm
      · rw [if_neg he]
        show _ = ((υ.dnode.get e).map _).map _
        rw [Option.map_map]
        apply Option.map_congr
        intro node' hnode'
        have hr' : σ.sids.resp e = some node'.respMaps := by
          rw [← hυσ]
          exact sids_resp hnode'
        simp only [Function.comp, DownstreamNode.respMaps, RespMaps.mk.injEq, true_and]
        constructor
        · funext q
          refine (butFor_eq_self (fun hc => he ?_)).symm
          obtain ⟨y, hy, hyd, -⟩ := h.streams e _ q st hr' hc
          cases hx.symm.trans hy
          exact NodeRef.downstream.inj (hyd.symm.trans hd)
        · funext k
          refine (butFor_eq_self (fun hc => he ?_)).symm
          obtain ⟨y, hy, hyd, -⟩ := h.sids e _ k st hr' hc
          cases hx.symm.trans hy
          exact NodeRef.downstream.inj (hyd.symm.trans hd)
  · -- a stream of a node of the broker
    rename_i n hn
    simp only [Option.bind_eq_some_iff] at hs
    obtain ⟨-, -, τ, hτ, hs⟩ := hs
    obtain rfl := Option.some.inj hs
    have hτσ : τ.sids = σ.sids := (Frame.detachLocal hτ).sids (by decide)
    ext1
    · funext t
      exact hfree τ hτσ t
    · funext e
      show τ.sids.resp e = (σ.sids.resp e).map _
      rw [hτσ]
      cases hr : σ.sids.resp e with
      | none => rfl
      | some r =>
        -- no link lists the stream of a local node
        have hne : ∀ y, σ.sids.stream st = some y → y.respNode ≠ .downstream e := by
          rintro y hy hyd
          cases hx.symm.trans hy
          rw [show stream.numbered.respNode = .regular n from hn] at hyd
          cases hyd
        rw [Option.map_some]
        congr 1
        cases r with
        | mk sid streams sids =>
          simp only [RespMaps.mk.injEq, true_and]
          constructor
          · funext q
            refine (butFor_eq_self (fun hc => ?_)).symm
            obtain ⟨y, hy, hyd, -⟩ := h.streams e _ q st hr hc
            exact hne y hy hyd
          · funext k
            refine (butFor_eq_self (fun hc => ?_)).symm
            obtain ⟨y, hy, hyd, -⟩ := h.sids e _ k st hr hc
            exact hne y hy hyd

/-- The stream that `req` leaves without requesters. -/
def lastSeat (σ : Broker J) (req : SubRequester J) : Option StreamId := do
  let st ← req.stream
  let stream ← σ.stream.get st
  if (stream.reqSubs.erase req.reqNode).size = 0 then some st else none

/-- The stream that goes with the SubRequester `s`. -/
def vacated (σ : Broker J) (s : SubId) : Option StreamId := (σ.sub.get s).bind σ.lastSeat

theorem leaveStream_sids {req : SubRequester J} (h : σ.sids.Ok) (hl : σ.leaveStream req = some σ') :
    σ'.sids = σ.sids.dropAny (σ.lastSeat req) := by
  unfold leaveStream at hl
  cases hreq : req.stream with
  | none =>
    simp only [hreq] at hl
    cases hl
    simp [lastSeat, hreq, Sids.dropAny]
  | some st =>
    simp only [hreq, Option.bind_eq_bind, Option.bind_eq_some_iff] at hl
    obtain ⟨stream, hst, hl⟩ := hl
    have hmod : (σ.modStream st (fun stream' =>
        { stream' with reqSubs := stream.reqSubs.erase req.reqNode })).sids = σ.sids :=
      sids_modStream_same (fun _ => rfl)
    split at hl
    · rename_i hempty
      rw [brokerStreamFree_sids (by rw [hmod]; exact h) hl, hmod]
      simp [lastSeat, hreq, hst, hempty, Sids.dropAny]
    · rename_i hmore
      obtain rfl := Option.some.inj hl
      rw [hmod]
      simp [lastSeat, hreq, hst, hmore, Sids.dropAny]

theorem brokerFreeSubRequester_sids {s : SubId} (h : σ.sids.Ok) (hs : σ.brokerFreeSubRequester s = some σ') :
    σ'.sids = σ.sids.dropAny (σ.vacated s) := by
  simp only [brokerFreeSubRequester, releaseSub, Option.bind_eq_bind, Option.bind_eq_some_iff] at hs
  obtain ⟨τ, ⟨req, hreq, node, -, τ1, h1, τ2, h2, h3⟩, υ, hυ, hs⟩ := hs
  obtain rfl := Option.some.inj hs
  -- only leaving the stream touches streams
  have hbefore : Frame [.index, .place, .pending] σ ((σ.dropIndexes req).dropPending s req) :=
    ((Frame.dropIndexes σ req).mono (by decide)).trans ((Frame.dropPending _ s req).mono (by decide))
  have hσ : ((σ.dropIndexes req).dropPending s req).sids = σ.sids := hbefore.sids (by decide)
  have hseat : ((σ.dropIndexes req).dropPending s req).lastSeat req = σ.lastSeat req := by
    unfold lastSeat
    simp only [hbefore.stream_get (by decide) (by decide)]
  have hafter : Frame [.storage, .qosQueue, .queue, .acks] τ1 υ :=
    ((Frame.dropStored h2).mono (by decide)).trans (((Frame.dropQosQueue h3).mono (by decide)).trans
      ((Frame.purgePendingAcks hυ).mono (by decide)))
  show υ.sids = _
  rw [hafter.sids (by decide), leaveStream_sids (by rw [hσ]; exact h) h1, hσ, hseat, vacated, hreq]
  rfl

theorem brokerCloseLink_sids {d : DownId} (h : σ.sids.Ok) (hs : σ.brokerCloseLink d = some σ') : σ'.sids.Ok := by
  simp only [brokerCloseLink, brokerRemoteDslinkFree, Option.bind_eq_bind, Option.bind_eq_some_iff] at hs
  obtain ⟨ω, ⟨node, -, ⟨τ, subs⟩, hτ, υ, hυ, node', -, χ, hχ, hω⟩, hs⟩ := hs
  obtain rfl := Option.some.inj hω
  obtain rfl := Option.some.inj hs
  have hτok : τ.sids.Ok := by
    rw [(Frame.collectNonQos hτ).sids (by decide), (Frame.freePendingAcks σ d).sids (by decide)]
    exact h
  have hυok : υ.sids.Ok := by
    refine foldlM_invariant (fun σ => σ.sids.Ok) ?_ hυ hτok
    intro σ s _ σ' hok hs
    rw [brokerFreeSubRequester_sids hok hs]
    exact hok.dropAny _
  rw [(Frame.dropLink _ d).sids (by decide), (Frame.clearSids χ d).sids (by decide),
    (Frame.resetSids hχ).sids (by decide)]
  exact hυok

/-! ## Streams and links that come, links that go -/

theorem initRemoteStream_sids (σ : Broker J) {d : DownId} {node : DownstreamNode J} (hd : σ.dnode.get d = some node)
    (p : CString) : (σ.initRemoteStream d node p).1.sids = σ.sids.add d node.respMaps p σ.stream.next := by
  ext1
  · funext t
    show ((σ.stream.alloc _).get t).map _ = Function.update σ.sids.stream _ _ t
    rw [Heap.get_alloc, Function.update_apply]
    split <;> rfl
  · funext e
    show ((σ.dnode.modify d _).get e).map _ = Function.update σ.sids.resp _ _ e
    rw [Heap.get_modify, Function.update_apply]
    split
    · rw [hd]
      simp only [Option.map_some, DownstreamNode.respMaps]
      congr 2
      · funext q
        rw [AssocMap.get_set, Function.update_apply]
      · funext k
        rw [AssocMap.get_set, Function.update_apply]
    · rfl

theorem initLocalStream_sids_ok (h : σ.sids.Ok) (n : NodeId) : (σ.initLocalStream n).1.sids.Ok := by
  have hsids : (σ.initLocalStream n).1.sids =
      { σ.sids with stream := Function.update σ.sids.stream σ.stream.next (some ⟨.regular n, 0, none⟩) } := by
    ext1
    · funext t
      show ((σ.stream.alloc _).get t).map _ = Function.update σ.sids.stream _ _ t
      rw [Heap.get_alloc, Function.update_apply]
      split <;> rfl
    · rfl
  rw [hsids]
  exact h.addLocal (n := n) (by simp [sids]) rfl

theorem brokerInitDownstreamNode_sids_ok {parent : NodeId} {name : CString} {d : DownId} (h : σ.sids.Ok)
    (hs : σ.brokerInitDownstreamNode parent name = some (σ', d)) : σ'.sids.Ok := by
  simp only [brokerInitDownstreamNode, Option.bind_eq_bind, Option.bind_eq_some_iff] at hs
  obtain ⟨node, -, hs⟩ := hs
  cases hs
  refine (h.newMaps (d := σ.dnode.next) (by simp [sids]) 0).congr ?_
  ext1
  · rfl
  · funext e
    show ((σ.dnode.alloc _).get e).map _ = Function.update σ.sids.resp _ _ e
    rw [Heap.get_alloc, Function.update_apply]
    split <;> rfl

theorem freeDownstreamNode_sids_ok {d : DownId} (h : σ.sids.Ok) (hs : σ.freeDownstreamNode d = some σ') :
    σ'.sids.Ok := by
  simp only [freeDownstreamNode, Option.bind_eq_bind, Option.bind_eq_some_iff] at hs
  obtain ⟨node, hd, hs⟩ := hs
  split at hs
  · cases hs
  · rename_i hempty
    simp only [Option.bind_eq_some_iff] at hs
    obtain ⟨τ, hτ, hs⟩ := hs
    obtain rfl := Option.some.inj hs
    have hτσ : τ.sids = σ.sids := (Frame.leaveParent hτ).sids (by decide)
    have hnone : ∀ p, node.respMaps.streams p = none := by
      apply AssocMap.size_eq_zero.mp
      omega
    refine (h.dropMaps (sids_resp hd) hnone).congr ?_
    ext1
    · show τ.sids.stream = σ.sids.stream
      rw [hτσ]
    · funext e
      show ((τ.dnode.free d).get e).map _ = Function.update σ.sids.resp d none e
      rw [Heap.get_free, Function.update_apply, ← hτσ]
      split <;> rfl

/-! ## Calls -/

theorem sids_ok_call {c : Call J} (h : σ.sids.Ok) (hc : c.drawsNoSid) (hs : c.run cfg σ = some σ') :
    σ'.sids.Ok := by
  cases c with
  | newRemoteStream => exact hc.elim
  | subQos s qos => exact h.congr (brokerUpdateSubQos_sids hs)
  | streamQos st => exact h.congr (@brokerUpdateStreamQos_sids _ _ _ (some st) hs)
  | sendSubscribe d path sid qos => exact h.congr (sendSubscribeRequest_sids hs)
  | newLocalStream n =>
    cases hs
    exact initLocalStream_sids_ok h n
  | attach s st =>
    obtain ⟨req, -, rfl⟩ := Option.map_eq_some_iff.mp hs
    exact h.congr (attach_sids σ s st req.reqNode)
  | freeStream st =>
    rw [brokerStreamFree_sids h hs]
    exact h.drop st
  | freeSub s =>
    rw [brokerFreeSubRequester_sids h hs]
    exact h.dropAny _
  | newDnode parent name =>
    obtain ⟨⟨τ, d⟩, hτ, rfl⟩ := Option.map_eq_some_iff.mp hs
    exact brokerInitDownstreamNode_sids_ok h hτ
  | dropDnode d => exact freeDownstreamNode_sids_ok h hs
  | closeLink d => exact brokerCloseLink_sids h hs
  | _ => exact h.congr ((Call.frame hs).sids (by simp [Call.parts]))

theorem sids_ok_calls {A : Call J → Prop} (h : σ.sids.Ok) (hs : Calls cfg A σ σ') (hA : ∀ c, A c → c.drawsNoSid) :
    σ'.sids.Ok :=
  Calls.invariant (fun τ => τ.sids.Ok) hs (fun _ c _ hok hc hrun => sids_ok_call hok (hA c hc) hrun) h

/-! ## Subscribing to a link -/

/-- A path is resolved in the children of the local nodes. -/
theorem Frame.brokerNodeGet {ps : List Part} (h : Frame ps σ σ') (hps : Part.nodes ∉ ps ∧ Part.roots ∉ ps)
    (path : CString) : σ'.brokerNodeGet path = σ.brokerNodeGet path := by
  have hnodes : Heap.Rel (BrokerNode.Agree .nodes) σ.node σ'.node := h _ hps.1
  have hroots : σ'.root = σ.root ∧ _ := h .roots hps.2
  have hchild : ∀ (root : NodeId) (f : BrokerNode J → Option (Option (NodeRef × CString))),
      (∀ node node', node'.children = node.children → f node' = f node) →
        (σ'.node.get root).bind f = (σ.node.get root).bind f := by
    intro root f hf
    cases hg : σ.node.get root with
    | none => rw [hnodes.get_none.mpr hg]
    | some node =>
      obtain ⟨node', hnode', -, -, -, hchildren, -⟩ := hnodes.get hg
      rw [hnode']
      exact hf node node' hchildren
  have hloop : ∀ (fuel : Nat) (root : NodeId) (path : CString),
      σ'.brokerNodeGetLoop fuel root path = σ.brokerNodeGetLoop fuel root path := by
    intro fuel
    induction fuel with
    | zero => exact fun _ _ => rfl
    | succ fuel ih =>
      intro root path
      simp only [brokerNodeGetLoop, ih, Option.bind_eq_bind]
      split
      · rfl
      · split
        · exact hchild root _ (fun node node' hn => by simp only [hn])
        · rfl
        · exact hchild root _ (fun node node' hn => by simp only [hn])
  unfold Broker.brokerNodeGet
  rw [hloop, hroots.1]

/-- A stream that a link has is taken as it is; a new one gets the next sid. -/
theorem brokerSubscribeRemote_sids {d : DownId} {s : SubId} {p : CString} {node : DownstreamNode J}
    (hd : σ.dnode.get d = some node) (hs : σ.brokerSubscribeRemote cfg d s p = some σ') :
    node.respSubStreams.get p ≠ none ∧ σ'.sids = σ.sids ∨
      node.respSubStreams.get p = none ∧ σ'.sids = σ.sids.add d node.respMaps p σ.stream.next := by
  simp only [brokerSubscribeRemote, Option.bind_eq_bind, Option.bind_eq_some_iff] at hs
  obtain ⟨node', hd', req, -, τ, hτ, hs⟩ := hs
  cases hd.symm.trans hd'
  have hσ' : σ'.sids = (σ.remoteStream d node p).1.sids := by
    rw [(Frame.sendLastValue hs).sids (by decide), brokerUpdateStreamQos_sids hτ]
    exact attach_sids ..
  cases hget : node.respSubStreams.get p with
  | some st =>
    refine .inl ⟨by simp, hσ'.trans ?_⟩
    rw [remoteStream, hget]
  | none =>
    refine .inr ⟨rfl, hσ'.trans ?_⟩
    rw [remoteStream, hget]
    exact initRemoteStream_sids σ hd p

/-- The sids are in order, and the streams `ps` of the link of `d` can be made. -/
def Ready (σ : Broker J) (d : DownId) (ps : List CString) : Prop :=
  σ.sids.Ok ∧ ∀ r ∈ σ.sids.resp d, r.Fresh (newPaths r.streams ps).length

theorem Ready.congr {d : DownId} {ps : List CString} (h : σ.Ready d ps) (hs : σ'.sids = σ.sids) : σ'.Ready d ps := by
  unfold Ready
  rw [hs]
  exact h

/-- One subscription uses up its own sid. -/
theorem Ready.subscribe {d : DownId} {s : SubId} {p : CString} {ps : List CString} (h : σ.Ready d (p :: ps))
    (hs : σ.brokerSubscribeRemote cfg d s p = some σ') : σ'.Ready d ps := by
  obtain ⟨hok, hfresh⟩ := h
  obtain ⟨node, hd⟩ : ∃ node, σ.dnode.get d = some node := by
    simp only [brokerSubscribeRemote, Option.bind_eq_bind, Option.bind_eq_some_iff] at hs
    obtain ⟨node, hd, -⟩ := hs
    exact ⟨node, hd⟩
  have hr := sids_resp hd
  have hfresh := hfresh _ hr
  rcases brokerSubscribeRemote_sids hd hs with ⟨hold, hsids⟩ | ⟨hnew, hsids⟩
  · rw [newPaths_old (m := node.respMaps.streams) hold] at hfresh
    refine Ready.congr ⟨hok, fun r hr' => ?_⟩ hsids
    cases hr.symm.trans hr'
    exact hfresh
  · rw [newPaths_new (m := node.respMaps.streams) hnew σ.stream.next, List.length_cons] at hfresh
    obtain ⟨hfree, hrest⟩ := hfresh.next
    constructor
    · rw [hsids]
      exact hok.add hr (by simp [sids]) hnew hfree
    · intro r hr'
      have hr' : σ'.sids.resp d = some r := hr'
      rw [hsids] at hr'
      have hr' : Function.update σ.sids.resp d _ d = some r := hr'
      rw [Function.update_self] at hr'
      obtain rfl := Option.some.inj hr'
      exact hrest p σ.stream.next

/-- The remote paths of waiting SubRequesters. -/
def waitingPaths (σ : Broker J) (len : Nat) (subs : List SubId) : List CString :=
  subs.filterMap (fun s => (σ.sub.get s).map (fun req => req.path.drop len))

/-- The link that an event subscribes to, and the paths. -/
def asked (σ : Broker J) : Event J → Option (DownId × List CString)
  | .subscribe d sub _ => do
    let path ← sub.path
    let _ ← sub.sid
    let node ← σ.dnode.get d
    if sub.permissionOnPath.toNat < PermissionLevel.read.toNat ∨ (node.reqSubPaths.get path).isSome then none
    else
      match ← σ.brokerNodeGet path with
      | some (.downstream e, out) => some (e, [out])
      | _ => none
  | .connect d => do
    let node ← σ.dnode.get d
    let subs ← σ.remotePendingSub.get node.path
    some (d, σ.waitingPaths node.path.length subs)
  | _ => none

/-- Every sid an event hands out is free, once the stream is gone that it frees first. -/
def SidsDrawn (σ : Broker J) (e : Event J) : Prop :=
  ∀ x ∈ σ.asked e, ∀ r ∈ (σ.sids.dropAny ((σ.freedBy e).bind σ.vacated)).resp x.1,
    r.Fresh (newPaths r.streams x.2).length

instance (σ : Broker J) (e : Event J) : Decidable (σ.SidsDrawn e) := by
  delta SidsDrawn
  infer_instance

theorem attachPending_sids {d : DownId} {len : Nat} {subs : List SubId}
    (h : σ.Ready d (σ.waitingPaths len subs)) (hs : σ.attachPending cfg d len subs = some σ') : σ'.sids.Ok := by
  -- the paths that still wait are those of the rest of the list
  have hloop := foldlM_rest (fun l τ => τ.Ready d (τ.waitingPaths len l)) (fun τ s l υ hready hround => ?_) hs h
  · exact hloop.1
  · simp only [Option.bind_eq_bind, Option.bind_eq_some_iff] at hround
    obtain ⟨req, hreq, hround⟩ := hround
    have hpaths : τ.waitingPaths len (s :: l) = req.path.drop len :: τ.waitingPaths len l := by
      simp [waitingPaths, hreq]
    have hkeep : υ.waitingPaths len l = τ.waitingPaths len l := by
      unfold waitingPaths
      congr 1
      funext t
      have hsubs : Heap.Rel (SubRequester.Agree .subs) τ.sub υ.sub :=
        (Frame.brokerSubscribeRemote hround) .subs (by decide)
      cases ht : τ.sub.get t with
      | none => rw [hsubs.get_none.mpr ht]
      | some r =>
        obtain ⟨r', hr', hpath, -⟩ := hsubs.get ht
        rw [hr', Option.map_some, Option.map_some, hpath]
    rw [hpaths] at hready
    rw [hkeep]
    exact hready.subscribe hround

theorem brokerDslinkConnect_sids {d : DownId} (h : σ.sids.Ok) (hdrawn : σ.SidsDrawn (.connect d))
    (hs : σ.brokerDslinkConnect cfg d = some σ') : σ'.sids.Ok := by
  simp only [brokerDslinkConnect, Option.bind_eq_bind, Option.bind_eq_some_iff] at hs
  obtain ⟨node, hd, τ, hτ, hs⟩ := hs
  set ρ := σ.modDnode d (fun node' => { node' with link := some ⟨σ.linkPath node, 0, []⟩ }) with hρ
  have hρσ : ρ.sids = σ.sids := sids_modDnode_same (fun _ _ => rfl)
  have hτρ : τ.sids = ρ.sids ∧ τ.sub = ρ.sub ∧ τ.remotePendingSub = ρ.remotePendingSub := by
    refine foldlM_invariant (fun τ => τ.sids = ρ.sids ∧ τ.sub = ρ.sub ∧ τ.remotePendingSub = ρ.remotePendingSub)
      ?_ hτ ⟨rfl, rfl, rfl⟩
    rintro σ1 st - σ2 ⟨h1, h2, h3⟩ hsend
    simp only [Option.bind_eq_bind, Option.bind_eq_some_iff] at hsend
    obtain ⟨stream, -, hsend⟩ := hsend
    refine ⟨(sendSubscribeRequest_sids hsend).trans h1, ?_⟩
    simp only [sendSubscribeRequest, Option.bind_eq_bind, Option.bind_eq_some_iff] at hsend
    obtain ⟨_, -, _, -, hsend⟩ := hsend
    obtain rfl := Option.some.inj hsend
    exact ⟨h2, h3⟩
  obtain ⟨hsids, hsub, hpending⟩ := hτρ
  have hok : τ.sids.Ok := h.congr (hsids.trans hρσ)
  split at hs
  · cases hs
    exact hok
  · rename_i subs hsubs
    simp only [Option.bind_eq_some_iff, Option.map_eq_some_iff] at hs
    obtain ⟨len, ⟨path, hpath, rfl⟩, υ, hυ, hs⟩ := hs
    obtain rfl := Option.some.inj hs
    have hlen : path = node.path := by
      unfold linkPath at hpath
      split at hpath
      · exact (Option.some.inj hpath).symm
      · cases hpath
    rw [(Frame.subsListFree υ subs).sids (by decide)]
    refine attachPending_sids (σ := { τ with remotePendingSub := τ.remotePendingSub.erase node.path }) ⟨hok, ?_⟩ hυ
    intro r hr
    have hr : τ.sids.resp d = some r := hr
    have hasked : σ.asked (.connect d) = some (d, σ.waitingPaths node.path.length subs) := by
      have hlist : σ.remotePendingSub.get node.path = some subs := by
        rw [← hsubs, hpending]
        rfl
      simp [asked, hd, hlist]
    have hfresh := hdrawn _ hasked r (by
      rw [hsids, hρσ] at hr
      exact hr)
    rw [hlen]
    refine Eq.mp (congrArg (fun l => r.Fresh (newPaths r.streams l).length) ?_) hfresh
    show σ.waitingPaths _ subs = τ.waitingPaths _ subs
    unfold waitingPaths
    rw [hsub]
    rfl

/-- A new SubRequester: only a path below a link makes a stream there. -/
theorem subscribeNew_sids {d : DownId} {path : CString} {sid qos : Nat} {now : J} (h : σ.sids.Ok)
    (hready : ∀ e out, σ.brokerNodeGet path = some (some (.downstream e, out)) → σ.Ready e [out])
    (hs : σ.subscribeNew cfg d path sid qos now = some σ') : σ'.sids.Ok := by
  obtain ⟨τ, respNode, hτ, hget, hs⟩ := subscribeNew_calls hs
  have hτσ : τ.sids = σ.sids := (Frame.newSub hτ).sids (by decide)
  have hok : τ.sids.Ok := h.congr hτσ
  unfold placeSub at hs
  split at hs
  · split at hs
    · exact hok.congr ((Frame.brokerSubscribeDisconnectedRemote hs).sids (by decide))
    · obtain rfl := Option.some.inj hs
      exact hok.congr ((Frame.brokerSubscribeLocalNonexistent _ _ _).sids (by decide))
  · exact sids_ok_calls hok (brokerHandleLocalSubscribe_calls hs) (fun c hc => hc.2.drawsNoSid)
  · rename_i e out
    exact (((hready e out hget).congr hτσ).subscribe hs).1

theorem resubscribe_sids {d : DownId} {s : SubId} {sid qos : Nat} (h : σ.sids.Ok)
    (hs : σ.resubscribe cfg d s sid qos = some σ') : σ'.sids.Ok := by
  simp only [resubscribe, Option.bind_eq_bind, Option.bind_eq_some_iff] at hs
  obtain ⟨τ, hτ, υ, hυ, hs⟩ := hs
  have hok : υ.sids.Ok := (h.congr ((Frame.rekey hτ).sids (by decide))).congr (brokerUpdateSubQos_sids hυ)
  simp only [sendWaiting, Option.bind_eq_bind, Option.bind_eq_some_iff] at hs
  obtain ⟨req, -, hs⟩ := hs
  split at hs
  · exact hok.congr ((Frame.brokerUpdateSubReqQos hs).sids (by decide))
  · split at hs
    · exact hok.congr ((Frame.sendQueuedMessages hs).sids (by decide))
    · split at hs
      · cases hs
        exact hok
      · exact hok.congr ((Frame.sendLastValue hs).sids (by decide))

/-- A subscribe request: what it frees and what it asks for are read off the state before. -/
theorem subscribe_sids {d : DownId} {sub : SubscribeEntry} {now : J} (h : σ.sids.Ok)
    (hdrawn : σ.SidsDrawn (.subscribe d sub now)) (hs : σ.handleSubscribe cfg d sub now = some σ') : σ'.sids.Ok := by
  unfold handleSubscribe at hs
  split at hs
  swap
  · cases hs
    exact h
  rename_i path jSid hpath hjSid
  split at hs
  · cases hs
    exact h
  rename_i hperm
  simp only [subscribePath, Option.bind_eq_bind, Option.bind_eq_some_iff] at hs
  obtain ⟨node, hd, hs⟩ := hs
  -- the link a new path is below has the sids for it, once the old holder of the sid is gone
  have hready : ∀ gone, (σ.freedBy (.subscribe d sub now)).bind σ.vacated = gone → node.reqSubPaths.get path = none →
      ∀ τ : Broker J, τ.sids = σ.sids.dropAny gone → ∀ e out,
        σ.brokerNodeGet path = some (some (.downstream e, out)) → τ.Ready e [out] := by
    intro gone hgone hnew τ hτ e out hget
    refine ⟨(h.dropAny gone).congr hτ, ?_⟩
    rw [hτ]
    have hasked : σ.asked (.subscribe d sub now) = some (e, [out]) := by
      simp [asked, hpath, hjSid, hd, hnew, hperm, hget]
    have hfresh := hdrawn _ hasked
    rw [hgone] at hfresh
    exact hfresh
  have hfreed : ∀ s, node.reqSubSids.get (toU32 jSid) = some s → node.reqSubPaths.get path = none →
      σ.freedBy (.subscribe d sub now) = some s := by
    intro s hsid hnew
    simp [freedBy, hpath, hjSid, hd, hsid, hnew, hperm]
  split at hs
  · rename_i s s' hsid hold
    split at hs
    · exact h.congr (brokerUpdateSubQos_sids hs)
    · simp only [Option.bind_eq_some_iff] at hs
      obtain ⟨τ, hτ, hs⟩ := hs
      exact resubscribe_sids ((h.dropAny _).congr (brokerFreeSubRequester_sids h hτ)) hs
  · rename_i s hsid hnew
    simp only [Option.bind_eq_some_iff] at hs
    obtain ⟨τ, hτ, hs⟩ := hs
    have hτσ := brokerFreeSubRequester_sids h hτ
    refine subscribeNew_sids ((h.dropAny _).congr hτσ) ?_ hs
    intro e out hget
    refine hready _ ?_ hnew τ hτσ e out ?_
    · rw [hfreed s hsid hnew]
      rfl
    · rw [← hget]
      exact ((Frame.brokerFreeSubRequester hτ).brokerNodeGet (by decide) path).symm
  · exact resubscribe_sids h hs
  · rename_i hsid hnew
    refine subscribeNew_sids h ?_ hs
    apply hready none ?_ hnew σ rfl
    have hnone : σ.freedBy (.subscribe d sub now) = none := by
      simp [freedBy, hpath, hjSid, hd, hsid]
    rw [hnone]
    rfl

/-- Every event whose sids are free keeps the sids in order. -/
theorem sids_ok_step {e : Event J} (h : σ.sids.Ok) (hdrawn : σ.SidsDrawn e) (hs : step cfg σ e = some σ') :
    σ'.sids.Ok := by
  cases e with
  | subscribe d sub now =>
    obtain ⟨node, -, -, hs⟩ := onLink_eq hs
    exact subscribe_sids h hdrawn hs
  | connect d =>
    simp only [step, Option.bind_eq_bind, Option.bind_eq_some_iff] at hs
    obtain ⟨node, -, hs⟩ := hs
    split at hs
    · cases hs
    · exact brokerDslinkConnect_sids h hdrawn hs
  | nodeValue | invoke | publish | set | freeLocal | streamUpdate | addLocal | sendOther | update | ack
  | unsubscribe | removeLink | closeLink | initUpstream | initDownstream =>
    refine sids_ok_calls h (step_calls hs) (fun c hc => ?_)
    cases c <;> first | trivial | simp_all [Event.calls]

theorem reach_sids (h : Reach (step cfg) SidsDrawn (fun σ => brokerInit = some σ) σ) : σ.sids.Ok := by
  refine Reach.invariant (fun σ => σ.sids.Ok) (fun σ h0 => ?_) (fun _ _ _ hok hdrawn hs => sids_ok_step hok hdrawn hs) h
  obtain ⟨-, hdnode, hstream, -⟩ := brokerInit_empty h0
  have hnone : ∀ st, σ.sids.stream st = none := by
    intro st
    simp [sids, hstream]
  have hresp : ∀ d, σ.sids.resp d = none := by
    intro d
    simp [sids, hdnode]
  constructor
  · intro d r p st hr
    rw [hresp] at hr
    cases hr
  · intro d r k st hr
    rw [hresp] at hr
    cases hr
  · intro st x d hx
    rw [hnone] at hx
    cases hx

/-- The streams of a link have different sids, and both maps of the link list them, each one once. -/
structure RespSidsOk (σ : Broker J) : Prop where
  distinct : ∀ (d : DownId) (st st' : StreamId) (stream stream' : BrokerSubStream J), σ.stream.get st = some stream →
    σ.stream.get st' = some stream' → stream.respNode = .downstream d → stream'.respNode = .downstream d →
    stream.respSid = stream'.respSid → st = st'
  listed : ∀ (d : DownId) (node : DownstreamNode J), σ.dnode.get d = some node →
    node.respSubStreams.values.Perm node.respSubSids.values ∧
      ∀ st, st ∈ node.respSubSids.values ↔ ∃ stream, σ.stream.get st = some stream ∧ stream.respNode = .downstream d

/-- In every run whose events hand out free sids only, all streams of a link have different sids, and its two maps
    list exactly them. -/
theorem resp_sids_fresh (h : Reach (step cfg) SidsDrawn (fun σ => brokerInit = some σ) σ) : σ.RespSidsOk := by
  have hok := reach_sids h
  constructor
  · intro d st st' stream stream' hst hst' hd hd' hsid
    obtain ⟨r, p, hr, -, -, hk⟩ := hok.live st _ d (sids_stream hst) hd
    obtain ⟨r', p', hr', -, -, hk'⟩ := hok.live st' _ d (sids_stream hst') hd'
    cases hr.symm.trans hr'
    have hsid : stream.numbered.respSid = stream'.numbered.respSid := hsid
    rw [hsid, hk'] at hk
    exact (Option.some.inj hk).symm
  · intro d node hd
    have hr := sids_resp hd
    have hmem : ∀ st, st ∈ node.respSubSids.values ↔
        ∃ stream, σ.stream.get st = some stream ∧ stream.respNode = .downstream d := by
      intro st
      rw [AssocMap.mem_values]
      constructor
      · rintro ⟨k, hk⟩
        obtain ⟨x, hx, hxd, -⟩ := hok.sids d _ k st hr hk
        obtain ⟨stream, hst, rfl⟩ := Option.map_eq_some_iff.mp hx
        exact ⟨stream, hst, hxd⟩
      · rintro ⟨stream, hst, hnode⟩
        obtain ⟨r', p, hr', -, -, hk⟩ := hok.live st _ d (sids_stream hst) hnode
        cases hr.symm.trans hr'
        exact ⟨_, hk⟩
    refine ⟨?_, hmem⟩
    apply (List.perm_ext_iff_of_nodup ?_ ?_).mpr
    · intro st
      rw [hmem, AssocMap.mem_values]
      constructor
      · rintro ⟨p, hp⟩
        obtain ⟨x, hx, hxd, -⟩ := hok.streams d _ p st hr hp
        obtain ⟨stream, hst, rfl⟩ := Option.map_eq_some_iff.mp hx
        exact ⟨stream, hst, hxd⟩
      · rintro ⟨stream, hst, hnode⟩
        obtain ⟨r', p, hr', -, hp, -⟩ := hok.live st _ d (sids_stream hst) hnode
        cases hr.symm.trans hr'
        exact ⟨_, hp⟩
    · apply AssocMap.nodup_values
      intro p q st hp hq
      obtain ⟨x, hx, -, hxp⟩ := hok.streams d _ p st hr hp
      obtain ⟨y, hy, -, hyq⟩ := hok.streams d _ q st hr hq
      cases hx.symm.trans hy
      exact Option.some.inj (hxp.symm.trans hyq)
    · apply AssocMap.nodup_values
      intro k l st hk hl
      obtain ⟨x, hx, -, hxk⟩ := hok.sids d _ k st hr hk
      obtain ⟨y, hy, -, hyl⟩ := hok.sids d _ l st hr hl
      cases hx.symm.trans hy
      exact hxk.symm.trans hyl

/-- Two links with a stream each, one of them for a subscription that waited. -/
theorem resp_sids_fresh_waiting : ∃ σ : Broker Nat,
    (σ.dnode.get 0).any (fun node => decide (node.respSubSids.values.length = 2)) = true ∧
      (σ.dnode.get 2).any (fun node => decide (node.respSubSids.values = [2])) = true ∧ σ.RespSidsOk := by
  have hrun := Reach.of_guarded (step smallConfig) SidsDrawn brokerInit
    ([.initDownstream (cstr "a"), .initDownstream (cstr "r"), .connect 1,
      .subscribe 1 (readEntry "/downstream/a/x" 1 0) 0, .subscribe 1 (readEntry "/downstream/a/y" 2 0) 0,
      .subscribe 1 (readEntry "/downstream/b/z" 3 0) 0, .initDownstream (cstr "b"), .connect 2])
    (fun σ => (σ.dnode.get 0).any (fun node => decide (node.respSubSids.values.length = 2)) &&
      (σ.dnode.get 2).any (fun node => decide (node.respSubSids.values = [2]))) (by decide)
  obtain ⟨σ, hreach, hcheck⟩ := hrun
  simp only [Bool.and_eq_true] at hcheck
  exact ⟨σ, hcheck.1, hcheck.2, resp_sids_fresh hreach⟩

/-! ## A restart of the counter -/

/-- The first subscription to a path of a link that is away. -/
theorem brokerSubscribeRemote_away (cfg : Config) {d : DownId} {s : SubId} {p : CString} {node : DownstreamNode J}
    {req : SubRequester J} (hd : σ.dnode.get d = some node) (hs : σ.sub.get s = some req)
    (hlink : node.link = none) (hp : node.respSubStreams.get p = none) :
    ∃ σ', σ.brokerSubscribeRemote cfg d s p = some σ' ∧
      σ'.dnode = σ.dnode.modify d (fun node' =>
        { node' with
          sid := (incrSid node.sid).1
          respSubStreams := node'.respSubStreams.set p σ.stream.next
          respSubSids := node'.respSubSids.set (incrSid node.sid).2 σ.stream.next }) ∧
      σ'.sub.get s = some { req with stream := some σ.stream.next } ∧
      σ'.stream.get σ.stream.next = some ⟨.downstream d, (incrSid node.sid).2, req.qos, some p, none,
        AssocMap.empty.set req.reqNode s⟩ ∧
      ∀ t, t ≠ σ.stream.next → σ'.stream.get t = σ.stream.get t := by
  have hst : ((σ.initRemoteStream d node p).1.attach s σ.stream.next req.reqNode).stream.get σ.stream.next =
      some ⟨.downstream d, (incrSid node.sid).2, 255, some p, none, AssocMap.empty.set req.reqNode s⟩ := by
    show (((σ.stream.alloc _).modify σ.stream.next _)).get σ.stream.next = _
    rw [Heap.get_modify_self, Heap.get_alloc_next]
    rfl
  have hsub : ((σ.initRemoteStream d node p).1.attach s σ.stream.next req.reqNode).sub.get s =
      some { req with stream := some σ.stream.next } := by
    show (σ.sub.modify s _).get s = _
    rw [Heap.get_modify_self, hs]
    rfl
  have hmax : ((σ.initRemoteStream d node p).1.attach s σ.stream.next req.reqNode).maxQosOf
      (AssocMap.empty.set req.reqNode s).values = some req.qos := by
    show maxQosOf _ [s] = _
    simp [maxQosOf, hsub]
  have hd' : ((σ.initRemoteStream d node p).1.attach s σ.stream.next req.reqNode).dnode.get d =
      some { node with
        sid := (incrSid node.sid).1
        respSubStreams := node.respSubStreams.set p σ.stream.next
        respSubSids := node.respSubSids.set (incrSid node.sid).2 σ.stream.next } := by
    show (σ.dnode.modify d _).get d = _
    rw [Heap.get_modify_self, hd]
    rfl
  refine ⟨((σ.initRemoteStream d node p).1.attach s σ.stream.next req.reqNode).modStream σ.stream.next
    (fun stream => { stream with respQos := req.qos }), ?_, rfl, hsub, ?_, ?_⟩
  · have hinit : σ.remoteStream d node p = ((σ.initRemoteStream d node p).1, σ.stream.next) := by
      rw [remoteStream, hp]
      rfl
    have hfinal : (((σ.initRemoteStream d node p).1.attach s σ.stream.next req.reqNode).modStream σ.stream.next
        (fun stream => { stream with respQos := req.qos })).stream.get σ.stream.next = some ⟨.downstream d,
          (incrSid node.sid).2, req.qos, some p, none, AssocMap.empty.set req.reqNode s⟩ := by
      show (Heap.modify _ σ.stream.next _).get σ.stream.next = _
      rw [Heap.get_modify_self, hst]
      rfl
    simp [brokerSubscribeRemote, hd, hs, hinit, brokerUpdateStreamQos, hst, hmax, hd', hlink, sendLastValue, hfinal]
  · show (Heap.modify _ σ.stream.next _).get σ.stream.next = _
    rw [Heap.get_modify_self, hst]
    rfl
  · intro t ht
    show (((σ.stream.alloc _).modify σ.stream.next _).modify σ.stream.next _).get t = _
    rw [Heap.get_modify_ne ht, Heap.get_modify_ne ht, Heap.get_alloc, if_neg ht]

/-- A SubRequester that never got a row, the only one of a stream of a link that is away. -/
theorem brokerFreeSubRequester_away {d : DownId} {s : SubId} {st : StreamId} {node0 node1 : DownstreamNode J}
    {req : SubRequester J} {stream : BrokerSubStream J} (hd : σ.dnode.get d = some node0)
    (hreq : σ.dnode.get req.reqNode = some node1) (hs : σ.sub.get s = some req) (hlink : node0.link = none)
    (hplain : req.pendingNode = none ∧ req.qos = 0 ∧ req.qosQueue = none ∧ req.messageQueue = none)
    (hstream : req.stream = some st) (hst : σ.stream.get st = some stream) (hnode : stream.respNode = .downstream d)
    (hone : stream.reqSubs = AssocMap.empty.set req.reqNode s) :
    ∃ σ', σ.brokerFreeSubRequester s = some σ' ∧
      σ'.dnode = (σ.dropIndexes req).dnode.modify d (fun node => { node with
        respSubStreams := node.respSubStreams.erase (stream.remotePath.getD [])
        respSubSids := node.respSubSids.erase stream.respSid }) ∧
      ∀ t, t ≠ st → σ'.stream.get t = σ.stream.get t := by
  obtain ⟨hpending, hqos, hqueue, hmessages⟩ := hplain
  have hempty : (AssocMap.empty.set req.reqNode s).erase req.reqNode = AssocMap.empty := by
    simp [AssocMap.erase, AssocMap.set, AssocMap.empty, AssocMap.eraseIn, AssocMap.setIn]
  set σ1 := σ.dropIndexes req with hσ1
  set σ2 := σ1.modStream st (fun stream' => { stream' with reqSubs := stream.reqSubs.erase req.reqNode }) with hσ2
  have hst2 : σ2.stream.get st = some { stream with reqSubs := AssocMap.empty } := by
    show (σ.stream.modify st _).get st = _
    rw [Heap.get_modify_self, hst, hone, hempty]
    rfl
  obtain ⟨node2, hd2, hlink2⟩ : ∃ node, σ2.dnode.get d = some node ∧ node.link = none := by
    show ∃ node, (σ.dnode.modify req.reqNode _).get d = some node ∧ node.link = none
    rw [Heap.get_modify]
    split
    · rename_i he
      rw [← he, hd]
      exact ⟨_, rfl, hlink⟩
    · exact ⟨_, hd, hlink⟩
  set σ3 : Broker J := { σ2.modDnode d (fun node => { node with
      respSubStreams := node.respSubStreams.erase (stream.remotePath.getD [])
      respSubSids := node.respSubSids.erase stream.respSid }) with stream := σ2.stream.free st } with hσ3
  have hfree : σ2.brokerStreamFree st = some σ3 := by
    simp [brokerStreamFree, hst2, hnode, hd2, AssocMap.values, AssocMap.empty, detachRemote,
      brokerMsgSendUnsubscribe, hlink2, hσ3]
    rfl
  have hs3 : σ3.sub.get s = some req := hs
  refine ⟨{ σ3 with sub := σ3.sub.free s }, ?_, rfl, ?_⟩
  · have hleave : (σ1.dropPending s req).leaveStream req = some σ3 := by
      have hst1 : σ1.stream.get st = some stream := hst
      rw [dropPending, hpending]
      simp only [leaveStream, hstream, hst1, Option.bind_eq_bind, Option.bind_some]
      rw [if_pos (by rw [hone, hempty]; rfl)]
      exact hfree
    have hrelease : σ.releaseSub s = some σ3 := by
      simp [releaseSub, hs, hreq, hσ1 ▸ hleave, dropStored, hqos, dropQosQueue, hqueue]
    simp [brokerFreeSubRequester, hrelease, purgePendingAcks, hs3, hmessages]
  · intro t ht
    show ((σ.stream.modify st _).free st).get t = _
    rw [Heap.get_free_ne ht, Heap.get_modify_ne ht]

/-- The path of the stream that comes and goes. -/
def pathY : CString := cstr "/downstream/a/y"

/-- A link that is away, an old stream of it with the sid 0, and a requester that is not subscribed to its
    path `y`. -/
structure Cycling (c : Nat) (σ : Broker Nat) : Prop where
  path : σ.brokerNodeGet pathY = some (some (.downstream 0, cstr "/y"))
  resp : ∃ node, σ.dnode.get 0 = some node ∧ node.link = none ∧ node.sid = c ∧
    node.respSubStreams.get (cstr "/y") = none
  req : ∃ node, σ.dnode.get 1 = some node ∧ node.link.isSome ∧ node.reqSubPaths.get pathY = none ∧
    node.reqSubSids.get 2 = none
  old : ∃ stream, σ.stream.get 0 = some stream ∧ stream.respNode = .downstream 0 ∧ stream.respSid = 0

/-- The subscription to `y`, as an event. -/
def subscribeY : Event Nat := .subscribe 1 (readEntry "/downstream/a/y" 2 0) 0

/-- The subscription to `y` gets the next sid. -/
theorem Cycling.subscribe {σ : Broker Nat} {c : Nat} (h : Cycling c σ) :
    ∃ τ s st, step smallConfig σ subscribeY = some τ ∧
      τ.brokerNodeGet pathY = some (some (.downstream 0, cstr "/y")) ∧
      (∃ node, τ.dnode.get 0 = some node ∧ node.link = none ∧ node.sid = (incrSid c).1 ∧
        (node.respSubStreams.erase (cstr "/y")).get (cstr "/y") = none) ∧
      (∃ node, τ.dnode.get 1 = some node ∧ node.link.isSome ∧ node.reqSubSids.get 2 = some s) ∧
      τ.sub.get s = some ⟨pathY, 1, some st, 2, 0, none, none, none, 0⟩ ∧
      τ.stream.get st = some ⟨.downstream 0, (incrSid c).2, 0, some (cstr "/y"), none, AssocMap.empty.set 1 s⟩ ∧
      st ≠ 0 ∧ τ.stream.get 0 = σ.stream.get 0 := by
  obtain ⟨path, ⟨node0, h0, hlink0, hc, hy⟩, ⟨node1, h1, hlink1, hp, hs⟩, ⟨stream, hst, hnode, hsid⟩⟩ := h
  have hne : 0 ≠ σ.stream.next := Heap.ne_next_of_get hst
  set req := brokerCreateSubRequester (J := Nat) 1 pathY 2 0 none with hreq
  set σ1 : Broker Nat := { σ with sub := σ.sub.alloc req } with hσ1
  set σ2 := σ1.modDnode 1 (fun node => { node with
    reqSubPaths := node.reqSubPaths.set pathY σ.sub.next, reqSubSids := node.reqSubSids.set 2 σ.sub.next }) with hσ2
  have hget : σ1.brokerNodeGet pathY = σ.brokerNodeGet pathY := brokerNodeGet_congr rfl rfl pathY
  have hs1 : σ1.sub.get σ.sub.next = some req := Heap.get_alloc_next _ _
  have h20 : σ2.dnode.get 0 = some node0 := (Heap.get_modify_ne (by decide)).trans h0
  obtain ⟨τ, hτ, hτd, hτs, hτst, hτold⟩ := brokerSubscribeRemote_away smallConfig h20 hs1 hlink0 hy
  refine ⟨τ, σ.sub.next, σ.stream.next, ?_, ?_, ?_, ?_, hτs, ?_, hne.symm, hτold 0 hne⟩
  · have hnew : σ.subscribeNew smallConfig 1 pathY 2 0 0 = some τ := by
      have hadd : σ1.brokerAddNewSubscription smallConfig σ.sub.next 0 = some τ := by
        simp only [brokerAddNewSubscription, hs1, Option.bind_eq_bind, Option.bind_some]
        show (σ1.brokerNodeGet pathY).bind _ = _
        rw [hget, path]
        exact hτ
      rw [← hadd, subscribeNew, serializeIf, if_neg (by decide)]
      rfl
    show σ.onLink 1 (σ.subscribePath smallConfig 1 pathY 2 0 0) = some τ
    simp only [onLink, subscribePath, h1, Option.bind_eq_bind, Option.bind_some, hlink1, if_true, hs, hp]
    exact hnew
  · rw [(Frame.brokerSubscribeRemote hτ).brokerNodeGet (by decide), ← path, ← hget]
    exact brokerNodeGet_congr rfl rfl pathY
  · have hτ0 : τ.dnode.get 0 = _ := (congrArg (Heap.get · 0) hτd).trans (Heap.get_modify_self ..)
    rw [h20] at hτ0
    exact ⟨_, hτ0, hlink0, by rw [hc], AssocMap.get_erase_self _ _⟩
  · have hτ1 : τ.dnode.get 1 = (σ.dnode.modify 1 _).get 1 :=
      (congrArg (Heap.get · 1) hτd).trans (Heap.get_modify_ne (by decide))
    rw [Heap.get_modify_self, h1] at hτ1
    exact ⟨_, hτ1, hlink1, AssocMap.get_set_self _ _ _⟩
  · rw [hc] at hτst
    exact hτst

/-- The subscription that `s` is goes again, and the counter stays where it is. -/
theorem Cycling.next {σ : Broker Nat} {c : Nat} (h : Cycling c σ) :
    ∃ υ, runFrom (step smallConfig) σ [subscribeY, .unsubscribe 1 2] = some υ ∧ Cycling (incrSid c).1 υ := by
  obtain ⟨τ, s, st, hτ, hpath, ⟨node0, h0, hlink0, hc, hy⟩, ⟨node1, h1, hlink1, hs⟩, hsub, hst, hne, hold⟩ := h.subscribe
  set τ1 := τ.modDnode 1 (fun node => { node with reqSubSids := node.reqSubSids.erase 2 }) with hτ1
  have h01 : τ1.dnode.get 0 = some node0 := (Heap.get_modify_ne (by decide)).trans h0
  have h11 : τ1.dnode.get 1 = some { node1 with reqSubSids := node1.reqSubSids.erase 2 } := by
    show (τ.dnode.modify 1 _).get 1 = _
    rw [Heap.get_modify_self, h1]
    rfl
  have hsub1 : τ1.sub.get s = _ := hsub
  have hst1 : τ1.stream.get st = _ := hst
  obtain ⟨υ, hυ, hυd, hυst⟩ :=
    brokerFreeSubRequester_away h01 h11 hsub1 hlink0 ⟨rfl, rfl, rfl, rfl⟩ rfl hst1 rfl rfl
  have hrun : step smallConfig τ (.unsubscribe 1 2) = some υ := by
    show τ.onLink 1 (τ.handleUnsubscribe 1 2) = some υ
    simp only [onLink, handleUnsubscribe, h1, Option.bind_eq_bind, Option.bind_some, hlink1, if_true, hs]
    exact hυ
  refine ⟨υ, by simp only [runFrom, hτ, hrun, Option.bind_some], ?_, ?_, ?_, ?_⟩
  · rw [(Frame.brokerFreeSubRequester hυ).brokerNodeGet (by decide), ← hpath]
    exact brokerNodeGet_congr rfl rfl pathY
  · have hυ0 : υ.dnode.get 0 = _ := (congrArg (Heap.get · 0) hυd).trans (Heap.get_modify_self ..)
    have hdrop : (τ1.dropIndexes ⟨pathY, 1, some st, 2, 0, none, none, none, 0⟩).dnode.get 0 = some node0 :=
      (Heap.get_modify_ne (show 0 ≠ 1 by decide)).trans h01
    rw [hdrop] at hυ0
    exact ⟨_, hυ0, hlink0, hc, hy⟩
  · have hυ1 : υ.dnode.get 1 = (τ1.dnode.modify 1 _).get 1 :=
      (congrArg (Heap.get · 1) hυd).trans (Heap.get_modify_ne (by decide))
    rw [Heap.get_modify_self, h11] at hυ1
    refine ⟨_, hυ1, hlink1, AssocMap.get_erase_self _ _, ?_⟩
    show ((node1.reqSubSids.erase 2).erase 2).get 2 = none
    exact AssocMap.get_erase_self _ _
  · obtain ⟨stream, hstream, hrest⟩ := h.old
    exact ⟨stream, (hυst 0 hne.symm).trans (hold.trans hstream), hrest⟩

/-- A responder that never connected, and a requester that subscribed to its path `x`. -/
def firstSid : List (Event Nat) :=
  [.initDownstream (cstr "a"), .initDownstream (cstr "r"), .connect 1,
    .subscribe 1 (readEntry "/downstream/a/x" 1 0) 0]

/-- The counter is brought up to any value. -/
theorem reach_cycling (n : Nat) (hn : n ≤ 2147483646) : ∃ σ,
    Reach (step smallConfig) (fun _ _ => True) (fun σ => brokerInit = some σ) σ ∧ Cycling (n + 1) σ := by
  have hall : ∀ (σ : Broker Nat) es, RunOk (step smallConfig) (fun _ _ => True) σ es :=
    fun _ es => RunOk.of_forall (p := fun _ => True) (fun _ _ => trivial)
  induction n with
  | zero =>
    have hstart := Reach.of_eval (step smallConfig) brokerInit firstSid
      (fun σ => decide (σ.brokerNodeGet pathY = some (some (.downstream 0, cstr "/y"))) &&
        (σ.dnode.get 0).any (fun node => node.link.isNone && decide (node.sid = 1) &&
          (node.respSubStreams.get (cstr "/y")).isNone) &&
        (σ.dnode.get 1).any (fun node => node.link.isSome && (node.reqSubPaths.get pathY).isNone &&
          (node.reqSubSids.get 2).isNone) &&
        (σ.stream.get 0).any (fun stream => decide (stream.respNode = .downstream 0) && decide (stream.respSid = 0)))
      (by decide)
    obtain ⟨σ, hreach, hcheck⟩ := hstart
    simp only [Bool.and_eq_true, Option.any_eq_true, Option.isNone_iff_eq_none, decide_eq_true_eq]
      at hcheck
    obtain ⟨⟨⟨hpath, node0, h0, ⟨hl0, hsid⟩, hy⟩, node1, h1, ⟨hl1, hp⟩, hs⟩, stream, hst, hd, hk⟩ := hcheck
    exact ⟨σ, hreach, hpath, ⟨node0, h0, hl0, hsid, hy⟩, ⟨node1, h1, hl1, hp, hs⟩, stream, hst, hd, hk⟩
  | succ n ih =>
    obtain ⟨σ, hreach, hσ⟩ := ih (by omega)
    obtain ⟨υ, hrun, hυ⟩ := hσ.next
    refine ⟨υ, Reach.of_run hreach (hall _ _) hrun, ?_⟩
    have hnext : (incrSid (n + 1)).1 = n + 1 + 1 := by
      simp only [incrSid]
      rw [if_neg (by omega)]
    rw [← hnext]
    exact hυ

/-- After `INT32_MAX` the first sid is handed out again, to a second stream. -/
theorem resp_sids_not_fresh :
    ¬∀ σ : Broker Nat, Reach (step smallConfig) (fun _ _ => True) (fun σ => brokerInit = some σ) σ →
      σ.RespSidsOk := by
  intro hall
  obtain ⟨σ, hreach, hσ⟩ := reach_cycling 2147483646 (Nat.le_refl _)
  obtain ⟨τ, s, st, hτ, -, -, -, -, hst, hne, hold⟩ := hσ.subscribe
  obtain ⟨stream, hstream, hnode, hsid⟩ := hσ.old
  have hok := hall τ (.next hreach trivial hτ)
  exact hne (hok.distinct 0 st 0 _ _ hst (hold.trans hstream) rfl hnode hsid.symm)

end Broker

end DSLink
