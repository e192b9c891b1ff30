import DSLink.Broker.Index
import DSLink.Broker.Tree

/-!
# `Broker.Seats` — streams and pending lists of reachable states

A SubRequester sits in the `reqSubs` of a stream, waits in a pending list, or neither. `Seats` is the part of the
state this is about, `Seats.Ok` what holds of it in every reachable state: whoever a stream or a list names is
live and knows its place, and the streams of a link are filed under their remote paths. The converse, that every
SubRequester is named by its place, does not hold in every run.

## Contents
- `Seats`, `Seats.Ok` and one lemma for each kind of change.
- `Broker.seats` and the handlers.
- `reach_seats`: every reachable state.
-/

namespace DSLink

variable {J : Type} {cfg : Config} {σ σ' : Broker J}

/-- The place of a SubRequester. -/
structure Seat where
  path : CString
  reqNode : DownId
  stream : Option StreamId
  pendingNode : Option PendingKey

/-- The requesters of a stream, and where it belongs. -/
structure SeatStream where
  respNode : NodeRef
  remotePath : Option CString
  reqSubs : DownId → Option SubId

/-- All places: the SubRequesters, the streams, the streams of each link and the pending lists. -/
@[ext] structure Seats where
  sub : SubId → Option Seat
  stream : StreamId → Option SeatStream
  resp : DownId → Option (CString → Option StreamId)
  waiting : PendingKey → List SubId

/-- A list is for a path: for itself, or for what is below a link. -/
def PendingKey.fits : PendingKey → CString → Prop
  | .localPendingSub key, path => path = key
  | .remotePendingSub key, path => ∃ rest, path = key ++ slash :: rest

/-- The text before the rest of a split and the rest make up the path. -/
theorem splitSlash_join {path name rest : CString} (h : splitSlash path = (name, some rest)) :
    path = name ++ rest ∧ rest.head? = some slash := by
  induction path generalizing name with
  | nil => cases h
  | cons c path ih =>
    rw [splitSlash] at h
    split at h
    · rename_i hc
      cases h
      exact ⟨rfl, by rw [hc]; rfl⟩
    · obtain ⟨hname, hrest⟩ := Prod.mk.inj h
      obtain ⟨hpath, hhead⟩ := ih (Prod.ext rfl hrest)
      rw [← hname]
      exact ⟨congrArg (c :: ·) hpath, hhead⟩

/-- The link part of a path ends before a slash. -/
theorem baseLen_split {path : CString} {len : Nat} (h : brokerDownstreamNodeBaseLen path = some len) (hne : len ≠ 0) :
    ∃ rest, path = path.take len ++ slash :: rest := by
  simp only [brokerDownstreamNodeBaseLen, Option.bind_eq_bind, Option.bind_eq_some_iff] at h
  obtain ⟨c, -, h⟩ := h
  generalize (if c = 100 then 13 else 11) = offset at h
  by_cases hshort : path.length < offset
  · rw [if_pos hshort] at h
    cases h
  · rw [if_neg hshort] at h
    split at h
    · cases h
      exact absurd rfl hne
    · rename_i name rest hsplit
      obtain rfl := Option.some.inj h
      obtain ⟨hdrop, hhead⟩ := splitSlash_join hsplit
      obtain ⟨rest, rfl⟩ : ∃ rest', rest = slash :: rest' := by
        cases rest with
        | nil => cases hhead
        | cons c rest => exact ⟨rest, by rw [Option.some.inj hhead]⟩
      refine ⟨rest, ?_⟩
      have hrest : path.drop (offset + name.length) = slash :: rest := by
        rw [← List.drop_drop, hdrop, List.drop_left']
        rfl
      rw [← hrest, List.take_append_drop]

namespace Seats

/-- Replace the SubRequester `s`. -/
def setSub (S : Seats) (s : SubId) (k : Option Seat) : Seats := { S with sub := Function.update S.sub s k }

/-- Replace the stream `st`. -/
def setStream (S : Seats) (st : StreamId) (x : Option SeatStream) : Seats :=
  { S with stream := Function.update S.stream st x }

/-- Replace the streams of `d`. -/
def setResp (S : Seats) (d : DownId) (m : Option (CString → Option StreamId)) : Seats :=
  { S with resp := Function.update S.resp d m }

/-- Replace a pending list. -/
def setWaiting (S : Seats) (key : PendingKey) (l : List SubId) : Seats :=
  { S with waiting := Function.update S.waiting key l }

/-- Places are right, but for the requesters of the streams in `ex`. -/
structure Ok (ex : StreamId → Prop) (S : Seats) : Prop where
  seated : ∀ st x d s, ¬ex st → S.stream st = some x → x.reqSubs d = some s →
    ∃ k, S.sub s = some k ∧ k.reqNode = d ∧ k.stream = some st
  waits : ∀ key s, s ∈ S.waiting key →
    ∃ k, S.sub s = some k ∧ k.stream = none ∧ k.pendingNode = some key ∧ key.fits k.path
  nodup : ∀ key, (S.waiting key).Nodup
  streams : ∀ d m p st, S.resp d = some m → m p = some st →
    ∃ x, S.stream st = some x ∧ x.respNode = .downstream d ∧ x.remotePath = some p

variable {S : Seats} {ex : StreamId → Prop}

/-- Nobody names `s`. -/
def Unnamed (S : Seats) (ex : StreamId → Prop) (s : SubId) : Prop :=
  (∀ st x d, ¬ex st → S.stream st = some x → x.reqSubs d ≠ some s) ∧ ∀ key, s ∉ S.waiting key

theorem Ok.unnamed_dead (h : Ok ex S) {s : SubId} (hs : S.sub s = none) : S.Unnamed ex s := by
  constructor
  · intro st x d hst hx hd
    obtain ⟨k, hk, -⟩ := h.seated st x d s hst hx hd
    rw [hs] at hk
    cases hk
  · intro key hkey
    obtain ⟨k, hk, -⟩ := h.waits key s hkey
    rw [hs] at hk
    cases hk

/-- Who has no stream is in no `reqSubs`. -/
theorem Ok.unseated (h : Ok ex S) {s : SubId} {k : Seat} (hs : S.sub s = some k) (hk : k.stream = none)
    {st : StreamId} {x : SeatStream} (hst : ¬ex st) (hx : S.stream st = some x) (d : DownId) :
    x.reqSubs d ≠ some s := by
  intro hd
  obtain ⟨k', hk', -, hstream⟩ := h.seated st x d s hst hx hd
  cases hs.symm.trans hk'
  rw [hk] at hstream
  cases hstream

theorem Ok.waits_at (h : Ok ex S) {s : SubId} {k : Seat} (hs : S.sub s = some k) {key : PendingKey}
    (hw : s ∈ S.waiting key) : k.stream = none ∧ k.pendingNode = some key := by
  obtain ⟨k', hk', hstream, hkey, -⟩ := h.waits key s hw
  cases hs.symm.trans hk'
  exact ⟨hstream, hkey⟩

/-- A new record for `s` that keeps what its place says of it. -/
theorem Ok.setSub (h : Ok ex S) {s : SubId} {k : Option Seat}
    (hseat : ∀ st x d, ¬ex st → S.stream st = some x → x.reqSubs d = some s →
      ∃ k', k = some k' ∧ k'.reqNode = d ∧ k'.stream = some st)
    (hwait : ∀ key, s ∈ S.waiting key →
      ∃ k', k = some k' ∧ k'.stream = none ∧ k'.pendingNode = some key ∧ key.fits k'.path) :
    Ok ex (S.setSub s k) where
  seated := by
    intro st x d t hst hx hd
    show ∃ k', Function.update S.sub s k t = some k' ∧ _
    by_cases ht : t = s
    · subst ht
      rw [Function.update_self]
      exact hseat st x d hst hx hd
    · rw [Function.update_of_ne ht]
      exact h.seated st x d t hst hx hd
  waits := by
    intro key t hw
    show ∃ k', Function.update S.sub s k t = some k' ∧ _
    by_cases ht : t = s
    · subst ht
      rw [Function.update_self]
      exact hwait key hw
    · rw [Function.update_of_ne ht]
      exact h.waits key t hw
  nodup := h.nodup
  streams := h.streams

/-- Whom nobody names may change and go. -/
theorem Ok.setSub_unnamed (h : Ok ex S) {s : SubId} (hs : S.Unnamed ex s) (k : Option Seat) :
    Ok ex (S.setSub s k) := by
  apply h.setSub
  · intro st x d hst hx hd
    exact absurd hd (hs.1 st x d hst hx)
  · intro key hw
    exact absurd hw (hs.2 key)

/-- Entries leave a pending list. -/
theorem Ok.thin (h : Ok ex S) {key : PendingKey} {l : List SubId} (hl : l.Sublist (S.waiting key)) :
    Ok ex (S.setWaiting key l) where
  seated := h.seated
  waits := by
    intro key' s hs
    by_cases hkey : key' = key
    · subst hkey
      have hs : s ∈ Function.update S.waiting key' l key' := hs
      rw [Function.update_self] at hs
      exact h.waits key' s (hl.subset hs)
    · have hs : s ∈ Function.update S.waiting key l key' := hs
      rw [Function.update_of_ne hkey] at hs
      exact h.waits key' s hs
  nodup := by
    intro key'
    show (Function.update S.waiting key l key').Nodup
    by_cases hkey : key' = key
    · subst hkey
      rw [Function.update_self]
      exact (h.nodup key').sublist hl
    · rw [Function.update_of_ne hkey]
      exact h.nodup key'
  streams := h.streams

/-- `s` goes to the end of a list for its path. -/
theorem Ok.pend (h : Ok ex S) {s : SubId} {k : Seat} {key : PendingKey} (hs : S.sub s = some k)
    (hstream : k.stream = none) (hw : ∀ key, s ∉ S.waiting key) (hfits : key.fits k.path) :
    Ok ex ((S.setWaiting key (S.waiting key ++ [s])).setSub s (some { k with pendingNode := some key })) where
  seated := by
    intro st x d t hst hx hd
    show ∃ k', Function.update S.sub s _ t = some k' ∧ _
    have hne : t ≠ s := by
      rintro rfl
      exact h.unseated hs hstream hst hx d hd
    rw [Function.update_of_ne hne]
    exact h.seated st x d t hst hx hd
  waits := by
    intro key' t ht
    have ht : t ∈ Function.update S.waiting key (S.waiting key ++ [s]) key' := ht
    show ∃ k', Function.update S.sub s _ t = some k' ∧ _
    have hmem : t ∈ S.waiting key' ∨ t = s ∧ key' = key := by
      by_cases hkey : key' = key
      · subst hkey
        rw [Function.update_self] at ht
        rcases List.mem_append.mp ht with ht | ht
        · exact .inl ht
        · exact .inr ⟨List.mem_singleton.mp ht, rfl⟩
      · rw [Function.update_of_ne hkey] at ht
        exact .inl ht
    rcases hmem with hold | ⟨rfl, rfl⟩
    · have hne : t ≠ s := by
        rintro rfl
        exact hw key' hold
      rw [Function.update_of_ne hne]
      exact h.waits key' t hold
    · rw [Function.update_self]
      exact ⟨_, rfl, hstream, rfl, hfits⟩
  nodup := by
    intro key'
    show (Function.update S.waiting key (S.waiting key ++ [s]) key').Nodup
    by_cases hkey : key' = key
    · subst hkey
      rw [Function.update_self]
      refine List.nodup_append.mpr ⟨h.nodup key', List.nodup_singleton s, ?_⟩
      rintro a ha b hb rfl
      rw [List.mem_singleton.mp hb] at ha
      exact hw key' ha
    · rw [Function.update_of_ne hkey]
      exact h.nodup key'
  streams := h.streams

/-- Another record for a stream whose requesters are known. -/
theorem Ok.setStream (h : Ok ex S) {st : StreamId} {x : Option SeatStream}
    (hseat : ∀ y d s, x = some y → ¬ex st → y.reqSubs d = some s →
      ∃ k, S.sub s = some k ∧ k.reqNode = d ∧ k.stream = some st)
    (hresp : ∀ d m p, S.resp d = some m → m p = some st →
      ∃ y, x = some y ∧ y.respNode = .downstream d ∧ y.remotePath = some p) : Ok ex (S.setStream st x) where
  seated := by
    intro st' y d s hst hy hd
    have hy : Function.update S.stream st x st' = some y := hy
    by_cases he : st' = st
    · subst he
      rw [Function.update_self] at hy
      exact hseat y d s hy hst hd
    · rw [Function.update_of_ne he] at hy
      exact h.seated st' y d s hst hy hd
  waits := h.waits
  nodup := h.nodup
  streams := by
    intro d m p st' hm hp
    show ∃ y, Function.update S.stream st x st' = some y ∧ _
    by_cases he : st' = st
    · subst he
      rw [Function.update_self]
      exact hresp d m p hm hp
    · rw [Function.update_of_ne he]
      exact h.streams d m p st' hm hp

/-- `s` gets a seat in the stream `st`. Who sat there for the same requester loses it. -/
theorem Ok.attach (h : Ok ex S) {s : SubId} {k : Seat} {st : StreamId} {x : SeatStream} (hs : S.sub s = some k)
    (hstream : k.stream = none) (hw : ∀ key, s ∉ S.waiting key) (hx : S.stream st = some x) (hst : ¬ex st) :
    Ok ex ((S.setSub s (some { k with stream := some st })).setStream st
      (some { x with reqSubs := Function.update x.reqSubs k.reqNode (some s) })) := by
  have hunnamed : S.Unnamed ex s :=
    ⟨fun st' y d hst' hy => h.unseated hs hstream hst' hy d, hw⟩
  have h' := h.setSub_unnamed hunnamed (some { k with stream := some st })
  apply h'.setStream
  · rintro y d t ⟨⟩ - hd
    have hd : Function.update x.reqSubs k.reqNode (some s) d = some t := hd
    by_cases he : d = k.reqNode
    · subst he
      rw [Function.update_self] at hd
      cases hd
      exact ⟨_, Function.update_self .., rfl, rfl⟩
    · rw [Function.update_of_ne he] at hd
      exact h'.seated st x d t hst hx hd
  · intro d m p hm hp
    obtain ⟨y, hy, hnode, hpath⟩ := h.streams d m p st hm hp
    cases hx.symm.trans hy
    exact ⟨_, rfl, hnode, hpath⟩

/-- Other streams for a link. -/
theorem Ok.setResp (h : Ok ex S) {d : DownId} {m : Option (CString → Option StreamId)}
    (hm : ∀ m' p st, m = some m' → m' p = some st →
      ∃ x, S.stream st = some x ∧ x.respNode = .downstream d ∧ x.remotePath = some p) : Ok ex (S.setResp d m) where
  seated := h.seated
  waits := h.waits
  nodup := h.nodup
  streams := by
    intro e m' p st he hp
    have he : Function.update S.resp d m e = some m' := he
    by_cases hed : e = d
    · subst hed
      rw [Function.update_self] at he
      exact hm m' p st he hp
    · rw [Function.update_of_ne hed] at he
      exact h.streams e m' p st he hp

/-- A stream is gone from the heap and from its link. -/
theorem Ok.freeStream {st : StreamId} (h : Ok (· = st) S)
    (hresp : ∀ d m p, S.resp d = some m → m p ≠ some st) : Ok (fun _ => False) (S.setStream st none) := by
  have h' : Ok (· = st) (S.setStream st none) := by
    apply h.setStream
    · rintro y d s ⟨⟩
    · intro d m p hm hp
      exact absurd hp (hresp d m p hm)
  refine ⟨?_, h'.waits, h'.nodup, h'.streams⟩
  intro st' x d s _ hx hd
  apply h'.seated st' x d s _ hx hd
  rintro rfl
  have hx : Function.update S.stream st' none st' = some x := hx
  rw [Function.update_self] at hx
  cases hx

theorem Ok.mono {ex' : StreamId → Prop} (h : Ok ex S) (hsub : ∀ st, ex st → ex' st) : Ok ex' S :=
  ⟨fun st x d s hst => h.seated st x d s (fun he => hst (hsub st he)), h.waits, h.nodup, h.streams⟩

end Seats

/-- What a SubRequester knows of its place. -/
def SubRequester.seat (req : SubRequester J) : Seat := ⟨req.path, req.reqNode, req.stream, req.pendingNode⟩

/-- What a stream knows of its requesters. -/
def BrokerSubStream.seat (stream : BrokerSubStream J) : SeatStream :=
  ⟨stream.respNode, stream.remotePath, stream.reqSubs.get⟩

namespace Broker

/-- The pending list under a key. -/
def pendingList (σ : Broker J) : PendingKey → List SubId
  | .localPendingSub path => (σ.localPendingSub.get path).getD []
  | .remotePendingSub path => (σ.remotePendingSub.get path).getD []

/-- The places of a state. -/
def seats (σ : Broker J) : Seats where
  sub s := (σ.sub.get s).map SubRequester.seat
  stream st := (σ.stream.get st).map BrokerSubStream.seat
  resp d := (σ.dnode.get d).map (fun node => node.respSubStreams.get)
  waiting := σ.pendingList

theorem seats_sub {s : SubId} {req : SubRequester J} (h : σ.sub.get s = some req) :
    σ.seats.sub s = some req.seat := by
  simp [seats, h]

theorem seats_sub_eq_some {s : SubId} {k : Seat} : σ.seats.sub s = some k ↔
    ∃ req, σ.sub.get s = some req ∧ req.seat = k := Option.map_eq_some_iff

theorem seats_stream {st : StreamId} {stream : BrokerSubStream J} (h : σ.stream.get st = some stream) :
    σ.seats.stream st = some stream.seat := by
  simp [seats, h]

theorem seats_stream_eq_some {st : StreamId} {x : SeatStream} : σ.seats.stream st = some x ↔
    ∃ stream, σ.stream.get st = some stream ∧ stream.seat = x := Option.map_eq_some_iff

/-! ## Small changes -/

theorem seats_modSub {s : SubId} {f : SubRequester J → SubRequester J} {g : Seat → Seat}
    (hg : ∀ req : SubRequester J, (f req).seat = g req.seat) :
    (σ.modSub s f).seats = σ.seats.setSub s ((σ.seats.sub s).map g) := by
  ext1
  · funext t
    show ((σ.sub.modify s f).get t).map _ = Function.update σ.seats.sub s _ t
    rw [Heap.get_modify, Function.update_apply]
    split
    · rename_i he
      subst he
      show _ = ((σ.sub.get t).map _).map g
      rw [Option.map_map, Option.map_map]
      congr 1
      funext req
      exact hg req
    · rfl
  · rfl
  · rfl
  · rfl

/-- A change of a SubRequester that is about something else. -/
theorem seats_modSub_same {s : SubId} {f : SubRequester J → SubRequester J}
    (hf : ∀ req : SubRequester J, (f req).seat = req.seat) : (σ.modSub s f).seats = σ.seats := by
  rw [seats_modSub (g := id) hf, Option.map_id]
  ext1
  · exact Function.update_eq_self s _
  · rfl
  · rfl
  · rfl

theorem seats_modStream (st : StreamId) {f : BrokerSubStream J → BrokerSubStream J} {g : SeatStream → SeatStream}
    (hg : ∀ stream : BrokerSubStream J, (f stream).seat = g stream.seat) :
    (σ.modStream st f).seats = σ.seats.setStream st ((σ.seats.stream st).map g) := by
  ext1
  · rfl
  · funext t
    show ((σ.stream.modify st f).get t).map _ = Function.update σ.seats.stream st _ t
    rw [Heap.get_modify, Function.update_apply]
    split
    · rename_i he
      subst he
      show _ = ((σ.stream.get t).map _).map g
      rw [Option.map_map, Option.map_map]
      congr 1
      funext stream
      exact hg stream
    · rfl
  · rfl
  · rfl

theorem seats_modDnode {d : DownId} {f : DownstreamNode J → DownstreamNode J}
    {g : (CString → Option StreamId) → CString → Option StreamId}
    (hg : ∀ node : DownstreamNode J, (f node).respSubStreams.get = g node.respSubStreams.get) :
    (σ.modDnode d f).seats = σ.seats.setResp d ((σ.seats.resp d).map g) := by
  ext1
  · rfl
  · rfl
  · funext e
    show ((σ.dnode.modify d f).get e).map _ = Function.update σ.seats.resp d _ e
    rw [Heap.get_modify, Function.update_apply]
    split
    · rename_i he
      subst he
      show _ = ((σ.dnode.get e).map _).map g
      rw [Option.map_map, Option.map_map]
      congr 1
      funext node
      exact hg node
    · rfl
  · rfl

/-- A change of a downstream node that is about something else. -/
theorem seats_modDnode_same {d : DownId} {f : DownstreamNode J → DownstreamNode J}
    (hf : ∀ node ∈ σ.dnode.get d, (f node).respSubStreams = node.respSubStreams) :
    (σ.modDnode d f).seats = σ.seats := by
  ext1
  · rfl
  · rfl
  · funext e
    show ((σ.dnode.modify d f).get e).map _ = (σ.dnode.get e).map _
    rw [Heap.get_modify]
    split
    · rename_i he
      subst he
      rw [Option.map_map]
      apply Option.map_congr
      intro node hnode
      show (f node).respSubStreams.get = _
      rw [hf node hnode]
    · rfl
  · rfl

theorem Frame.seats_sub {ps : List Part} (h : Frame ps σ σ') (hsubs : Part.subs ∉ ps) (hplace : Part.place ∉ ps) :
    σ'.seats.sub = σ.seats.sub := by
  have h1 : Heap.Rel (SubRequester.Agree .subs) σ.sub σ'.sub := h _ hsubs
  have h2 : Heap.Rel (SubRequester.Agree .place) σ.sub σ'.sub := h _ hplace
  funext s
  show (σ'.sub.get s).map _ = (σ.sub.get s).map _
  cases hg : σ.sub.get s with
  | none => rw [h1.get_none.mpr hg]
  | some req =>
    obtain ⟨req', hreq', hpath, hnode⟩ := h1.get hg
    obtain ⟨req'', hreq'', hstream, hkey⟩ := h2.get hg
    cases hreq'.symm.trans hreq''
    rw [hreq']
    simp [SubRequester.seat, hpath, hnode, hstream, hkey]

theorem Frame.seats_stream {ps : List Part} (h : Frame ps σ σ') (hstreams : Part.streams ∉ ps) :
    σ'.seats.stream = σ.seats.stream := by
  have h1 : Heap.Rel (BrokerSubStream.Agree .streams) σ.stream σ'.stream := h _ hstreams
  funext st
  show (σ'.stream.get st).map _ = (σ.stream.get st).map _
  cases hg : σ.stream.get st with
  | none => rw [h1.get_none.mpr hg]
  | some stream =>
    obtain ⟨stream', hstream', hnode, hsid, hpath, hsubs⟩ := h1.get hg
    rw [hstream']
    simp [BrokerSubStream.seat, hnode, hpath, hsubs]

theorem Frame.pendingList {ps : List Part} (h : Frame ps σ σ') (hpending : Part.pending ∉ ps) :
    σ'.pendingList = σ.pendingList := by
  have h1 : σ'.localPendingSub = σ.localPendingSub ∧ σ'.remotePendingSub = σ.remotePendingSub := h _ hpending
  funext key
  cases key with
  | localPendingSub path => show (σ'.localPendingSub.get path).getD [] = _; rw [h1.1]; rfl
  | remotePendingSub path => show (σ'.remotePendingSub.get path).getD [] = _; rw [h1.2]; rfl

theorem Frame.seats_resp {ps : List Part} (h : Frame ps σ σ') (hresp : Part.resp ∉ ps) :
    σ'.seats.resp = σ.seats.resp := by
  have h1 : Heap.Rel (DownstreamNode.Agree .resp) σ.dnode σ'.dnode := h _ hresp
  funext d
  show (σ'.dnode.get d).map _ = (σ.dnode.get d).map _
  cases hg : σ.dnode.get d with
  | none => rw [h1.get_none.mpr hg]
  | some node =>
    obtain ⟨node', hnode', -, -, hstreams, -⟩ := h1.get hg
    rw [hnode', Option.map_some, hstreams]
    rfl

/-- What touches no place keeps the places. -/
theorem Frame.seats {ps : List Part} (h : Frame ps σ σ') (hsubs : Part.subs ∉ ps) (hplace : Part.place ∉ ps)
    (hstreams : Part.streams ∉ ps) (hpending : Part.pending ∉ ps) (hresp : σ'.seats.resp = σ.seats.resp) :
    σ'.seats = σ.seats :=
  Seats.ext (h.seats_sub hsubs hplace) (h.seats_stream hstreams) hresp (h.pendingList hpending)

/-- The places are in order. -/
abbrev SeatsOk (σ : Broker J) : Prop := σ.seats.Ok (fun _ => False)

/-! ## Functions that change no place -/

theorem sendSubscribeRequest_seats {d : DownId} {path : CString} {sid qos : Nat}
    (h : sendSubscribeRequest σ d path sid qos = some σ') : σ'.seats = σ.seats := by
  simp only [sendSubscribeRequest, DownstreamNode.wsSend, Option.bind_eq_bind, Option.bind_eq_some_iff,
    Option.map_eq_some_iff] at h
  obtain ⟨node, hd, node', ⟨link, -, rfl⟩, h⟩ := h
  obtain rfl := Option.some.inj h
  apply seats_modDnode_same
  intro node' hd'
  cases hd.symm.trans hd'
  rfl

theorem brokerUpdateStreamQos_seats {st : Option StreamId} (h : brokerUpdateStreamQos σ st = some σ') :
    σ'.seats = σ.seats := by
  simp only [brokerUpdateStreamQos] at h
  split at h
  · cases h; rfl
  · rename_i st
    simp only [Option.bind_eq_bind, Option.bind_eq_some_iff] at h
    obtain ⟨stream, -, h⟩ := h
    split at h
    · simp only [Option.bind_eq_some_iff] at h
      obtain ⟨maxQos, -, node, -, h⟩ := h
      have hmod : (σ.modStream st (fun stream => { stream with respQos := maxQos })).seats = σ.seats := by
        have hf : Frame [.values] σ (σ.modStream st (fun stream => { stream with respQos := maxQos })) :=
          .modStream (by intro p hp r; cases p <;> simp_all [BrokerSubStream.Agree])
        exact hf.seats (by decide) (by decide) (by decide) (by decide) rfl
      split at h
      · rw [sendSubscribeRequest_seats h, hmod]
      · cases h
        exact hmod
    · cases h; rfl

theorem serializeIf_seats {c : Prop} [Decidable c] {s : SubId} {delete : Bool}
    (h : serializeIf σ c s delete = some σ') : σ'.seats = σ.seats := by
  obtain ⟨m, rfl⟩ := serializeIf_eq h
  rfl

theorem brokerUpdateSubQos_seats {s : SubId} {qos : Nat} (h : brokerUpdateSubQos σ s qos = some σ') :
    σ'.seats = σ.seats := by
  simp only [brokerUpdateSubQos, Option.bind_eq_bind, Option.bind_eq_some_iff] at h
  obtain ⟨req, -, h⟩ := h
  split at h
  · cases h; rfl
  · simp only [Option.bind_eq_some_iff] at h
    obtain ⟨τ, hτ, υ, hυ, h⟩ := h
    have hqos : τ.seats = σ.seats :=
      (serializeIf_seats hτ).trans (seats_modSub_same (f := fun req => { req with qos := qos }) (fun _ => rfl))
    rw [serializeIf_seats h, brokerUpdateStreamQos_seats hυ, ← hqos]
    apply seats_modSub_same
    intro req
    rfl

theorem brokerMsgSendUnsubscribe_seats {d : DownId} {sid : Nat} (h : σ.brokerMsgSendUnsubscribe d sid = some σ') :
    σ'.seats = σ.seats := by
  simp only [brokerMsgSendUnsubscribe, DownstreamNode.wsSend, Option.bind_eq_bind, Option.bind_eq_some_iff] at h
  obtain ⟨node, hd, h⟩ := h
  split at h
  · cases h; rfl
  · simp only [Option.bind_eq_some_iff, Option.map_eq_some_iff] at h
    obtain ⟨node', ⟨link, -, rfl⟩, h⟩ := h
    obtain rfl := Option.some.inj h
    apply seats_modDnode_same
    intro node' hd'
    cases hd.symm.trans hd'
    rfl

theorem sendLastValue_seats {s : SubId} {st : StreamId} (h : sendLastValue cfg σ s st = some σ') :
    σ'.seats = σ.seats := by
  have hf := Frame.sendLastValue h
  exact hf.seats (by decide) (by decide) (by decide) (by decide) (hf.seats_resp (by decide))

/-! ## Pending lists -/

/-- A live SubRequester that is nowhere. -/
def Unplaced (σ : Broker J) (s : SubId) : Prop :=
  ∃ req, σ.sub.get s = some req ∧ req.stream = none ∧ ∀ key, s ∉ σ.pendingList key

theorem Unplaced.congr {s : SubId} (h : σ.Unplaced s) (hs : σ'.seats = σ.seats) : σ'.Unplaced s := by
  obtain ⟨req, hreq, hstream, hw⟩ := h
  have hsub : σ'.seats.sub s = some req.seat := by rw [hs, seats_sub hreq]
  obtain ⟨req', hreq', hseat⟩ := seats_sub_eq_some.mp hsub
  refine ⟨req', hreq', ?_, ?_⟩
  · rw [← hstream]
    exact congrArg Seat.stream hseat
  · intro key
    show s ∉ σ'.seats.waiting key
    rw [hs]
    exact hw key

theorem brokerSubscribeLocalNonexistent_seats {path : CString} {s : SubId} {req : SubRequester J}
    (hs : σ.sub.get s = some req) : (σ.brokerSubscribeLocalNonexistent path s).seats =
      (σ.seats.setWaiting (.localPendingSub path) (σ.seats.waiting (.localPendingSub path) ++ [s])).setSub s
        (some { req.seat with pendingNode := some (.localPendingSub path) }) := by
  unfold brokerSubscribeLocalNonexistent
  dsimp only
  rw [seats_modSub (g := fun k => { k with pendingNode := some (.localPendingSub path) }) (fun _ => rfl)]
  ext1
  · funext t
    show Function.update σ.seats.sub s ((σ.seats.sub s).map _) t = Function.update σ.seats.sub s _ t
    rw [seats_sub hs]
    rfl
  · rfl
  · rfl
  · funext key
    cases key with
    | localPendingSub key =>
      show ((σ.localPendingSub.set path _).get key).getD [] = Function.update σ.pendingList _ _ _
      rw [AssocMap.get_set, Function.update_apply]
      by_cases hkey : key = path <;> simp [hkey, pendingList, seats]
    | remotePendingSub key => rfl

theorem brokerSubscribeDisconnectedRemote_seats {path : CString} {s : SubId} {req : SubRequester J}
    (hs : σ.sub.get s = some req) (h : σ.brokerSubscribeDisconnectedRemote path s = some σ') :
    σ' = σ ∨ ∃ key rest, path = key ++ slash :: rest ∧ σ'.seats =
      (σ.seats.setWaiting (.remotePendingSub key) (σ.seats.waiting (.remotePendingSub key) ++ [s])).setSub s
        (some { req.seat with pendingNode := some (.remotePendingSub key) }) := by
  simp only [brokerSubscribeDisconnectedRemote, Option.bind_eq_bind, Option.bind_eq_some_iff] at h
  obtain ⟨len, hlen, h⟩ := h
  split at h
  · exact .inl (Option.some.inj h).symm
  · rename_i hne
    obtain rfl := Option.some.inj h
    obtain ⟨rest, hrest⟩ := baseLen_split hlen hne
    refine .inr ⟨path.take len, rest, hrest, ?_⟩
    generalize path.take len = key
    rw [seats_modSub (g := fun k => { k with pendingNode := some (.remotePendingSub key) }) (fun _ => rfl)]
    ext1
    · funext t
      show Function.update σ.seats.sub s ((σ.seats.sub s).map _) t = Function.update σ.seats.sub s _ t
      rw [seats_sub hs]
      rfl
    · rfl
    · rfl
    · funext key'
      cases key' with
      | localPendingSub key' => rfl
      | remotePendingSub key' =>
        show ((σ.remotePendingSub.set key _).get key').getD [] = Function.update σ.pendingList _ _ _
        rw [AssocMap.get_set, Function.update_apply]
        by_cases hkey : key' = key <;> simp [hkey, pendingList, seats]

theorem pendLocal_ok {ex : StreamId → Prop} (h : σ.seats.Ok ex) {s : SubId} {req : SubRequester J}
    (hs : σ.sub.get s = some req) (hstream : req.stream = none) (hw : ∀ key, s ∉ σ.pendingList key) :
    (σ.brokerSubscribeLocalNonexistent req.path s).seats.Ok ex := by
  rw [brokerSubscribeLocalNonexistent_seats hs]
  exact h.pend (seats_sub hs) hstream hw rfl

theorem pendRemote_ok {ex : StreamId → Prop} (h : σ.seats.Ok ex) {s : SubId} {req : SubRequester J}
    (hs : σ.sub.get s = some req) (hstream : req.stream = none) (hw : ∀ key, s ∉ σ.pendingList key)
    (hpend : σ.brokerSubscribeDisconnectedRemote req.path s = some σ') : σ'.seats.Ok ex := by
  rcases brokerSubscribeDisconnectedRemote_seats hs hpend with rfl | ⟨key, rest, hpath, hseats⟩
  · exact h
  · rw [hseats]
    exact h.pend (seats_sub hs) hstream hw ⟨rest, hpath⟩

theorem dropRemote_seats (σ : Broker J) (path : CString) :
    ({ σ with remotePendingSub := σ.remotePendingSub.erase path } : Broker J).seats =
      σ.seats.setWaiting (.remotePendingSub path) [] := by
  ext1
  · rfl
  · rfl
  · rfl
  · funext key
    cases key with
    | localPendingSub key => rfl
    | remotePendingSub key =>
      show ((σ.remotePendingSub.erase path).get key).getD [] = Function.update σ.pendingList _ _ _
      rw [AssocMap.get_erase, Function.update_apply]
      by_cases hkey : key = path <;> simp [hkey, pendingList]

theorem dropLocal_seats (σ : Broker J) (path : CString) :
    ({ σ with localPendingSub := σ.localPendingSub.erase path } : Broker J).seats =
      σ.seats.setWaiting (.localPendingSub path) [] := by
  ext1
  · rfl
  · rfl
  · rfl
  · funext key
    cases key with
    | localPendingSub key =>
      show ((σ.localPendingSub.erase path).get key).getD [] = Function.update σ.pendingList _ _ _
      rw [AssocMap.get_erase, Function.update_apply]
      by_cases hkey : key = path <;> simp [hkey, pendingList]
    | remotePendingSub key => rfl

/-- Who is on no list forgets the list it was on. -/
theorem subsListFree_ok {ex : StreamId → Prop} (h : σ.seats.Ok ex) (subs : List SubId)
    (hw : ∀ s ∈ subs, ∀ key, s ∉ σ.pendingList key) : (σ.subsListFree subs).seats.Ok ex := by
  induction subs generalizing σ with
  | nil => exact h
  | cons s subs ih =>
    have hseats := seats_modSub (σ := σ) (s := s) (f := fun req => { req with pendingNode := none })
      (g := fun k => { k with pendingNode := none }) (fun _ => rfl)
    refine ih (σ := σ.modSub s (fun req => { req with pendingNode := none })) ?_ ?_
    · rw [hseats]
      apply h.setSub
      · intro st x d hst hx hd
        obtain ⟨k, hk, hnode, hstream⟩ := h.seated st x d s hst hx hd
        exact ⟨{ k with pendingNode := none }, by rw [hk]; rfl, hnode, hstream⟩
      · intro key hkey
        exact absurd hkey (hw s List.mem_cons_self key)
    · intro t ht key
      exact hw t (List.mem_cons_of_mem _ ht) key

/-! ## Streams -/

theorem attach_ok {ex : StreamId → Prop} (h : σ.seats.Ok ex) {s : SubId} {req : SubRequester J} {st : StreamId}
    {stream : BrokerSubStream J} (hs : σ.sub.get s = some req) (hstream : req.stream = none)
    (hw : ∀ key, s ∉ σ.pendingList key) (hst : σ.stream.get st = some stream) (hex : ¬ex st) :
    (σ.attach s st req.reqNode).seats.Ok ex := by
  have hsub := seats_modSub (σ := σ) (s := s) (f := fun req => { req with stream := some st })
    (g := fun k => { k with stream := some st }) (fun _ => rfl)
  have hreqSubs := seats_modStream (σ := σ.modSub s (fun req => { req with stream := some st })) st
    (f := fun stream => { stream with reqSubs := stream.reqSubs.set req.reqNode s })
    (g := fun x => { x with reqSubs := Function.update x.reqSubs req.reqNode (some s) }) (by
      intro stream
      unfold BrokerSubStream.seat
      congr 1
      funext d
      rw [AssocMap.get_set, Function.update_apply])
  have hseats : (σ.attach s st req.reqNode).seats = _ := hreqSubs
  rw [hseats, hsub]
  show (Seats.setStream _ st (Option.map _ (σ.seats.stream st))).Ok ex
  rw [seats_sub hs, seats_stream hst]
  exact h.attach (seats_sub hs) hstream hw (seats_stream hst) hex

/-- A stream without requesters, filed under a link or not at all. -/
theorem newStream_ok {ex : StreamId → Prop} (h : σ.seats.Ok ex) (stream : BrokerSubStream J)
    (hempty : stream.reqSubs = .empty) : ({ σ with stream := σ.stream.alloc stream } : Broker J).seats.Ok ex := by
  have hseats : ({ σ with stream := σ.stream.alloc stream } : Broker J).seats =
      σ.seats.setStream σ.stream.next (some stream.seat) := by
    ext1
    · rfl
    · funext t
      show ((σ.stream.alloc stream).get t).map _ = Function.update σ.seats.stream _ _ t
      rw [Heap.get_alloc, Function.update_apply]
      split <;> rfl
    · rfl
    · rfl
  have hfree : σ.seats.stream σ.stream.next = none := by simp [seats]
  rw [hseats]
  apply h.setStream
  · rintro y d s ⟨⟩ - hd
    have hd : stream.reqSubs.get d = some s := hd
    rw [hempty] at hd
    cases hd
  · intro d m p hm hp
    obtain ⟨x, hx, -⟩ := h.streams d m p _ hm hp
    rw [hfree] at hx
    cases hx

theorem initLocalStream_seats_ok {ex : StreamId → Prop} (h : σ.seats.Ok ex) (n : NodeId) :
    (σ.initLocalStream n).1.seats.Ok ex :=
  newStream_ok h ⟨.regular n, 0, 0, none, none, .empty⟩ rfl

theorem initRemoteStream_seats_ok {ex : StreamId → Prop} (h : σ.seats.Ok ex) (d : DownId)
    (node : DownstreamNode J) (respPath : CString) : (σ.initRemoteStream d node respPath).1.seats.Ok ex := by
  unfold initRemoteStream
  dsimp only
  generalize hx : (⟨.downstream d, (incrSid node.sid).2, 255, some respPath, none, .empty⟩ : BrokerSubStream J) = stream
  have h' := newStream_ok h stream (by rw [← hx])
  rw [seats_modDnode (g := fun m => Function.update m respPath (some σ.stream.next)) (by
    intro node
    funext p
    rw [AssocMap.get_set, Function.update_apply])]
  apply h'.setResp
  intro m' p st hm' hp
  obtain ⟨m, hm, rfl⟩ := Option.map_eq_some_iff.mp hm'
  rw [Function.update_apply] at hp
  split at hp
  · rename_i hpath
    cases hp
    refine ⟨stream.seat, ?_, ?_, ?_⟩
    · exact seats_stream (Heap.get_alloc_next _ _)
    · rw [← hx]
      rfl
    · rw [← hx, hpath]
      rfl
  · exact h'.streams d m p st hm hp

/-! ### Freeing a stream -/

/-- What the loops of `broker_stream_free` start from: the requesters of the stream `st` that are still to be
    taken out of it. -/
structure Leaving (σ : Broker J) (st : StreamId) (subs : List SubId) : Prop where
  ok : σ.seats.Ok (· = st)
  nodup : subs.Nodup
  sits : ∀ s ∈ subs, ∃ req, σ.sub.get s = some req ∧ req.stream = some st

/-- The first one is taken out and is nowhere. -/
theorem Leaving.first {st : StreamId} {s : SubId} {subs : List SubId} (h : σ.Leaving st (s :: subs)) :
    let τ := σ.modSub s (fun req => { req with stream := none })
    τ.seats.Ok (· = st) ∧ τ.Unplaced s := by
  obtain ⟨req, hs, hstream⟩ := h.sits s List.mem_cons_self
  have hw : ∀ key, s ∉ σ.pendingList key := by
    intro key hkey
    obtain ⟨hnone, -⟩ := h.ok.waits_at (seats_sub hs) hkey
    rw [show req.seat.stream = some st from hstream] at hnone
    cases hnone
  refine ⟨?_, { req with stream := none }, ?_, rfl, hw⟩
  · rw [seats_modSub (g := fun k => { k with stream := none }) (fun _ => rfl)]
    apply h.ok.setSub_unnamed
    refine ⟨?_, hw⟩
    intro st' x d hne hx hd
    obtain ⟨k, hk, -, hk'⟩ := h.ok.seated st' x d s hne hx hd
    cases (seats_sub hs).symm.trans hk
    rw [show req.seat.stream = some st from hstream] at hk'
    exact hne (Option.some.inj hk').symm
  · show (σ.sub.modify s _).get s = _
    rw [Heap.get_modify_self, hs]
    rfl

/-- The others still sit there when the first one waits. -/
theorem Leaving.rest {st : StreamId} {s : SubId} {subs : List SubId} (h : σ.Leaving st (s :: subs))
    (hok : σ'.seats.Ok (· = st)) (hsub : ∀ t, t ≠ s → σ'.sub.get t = σ.sub.get t) : σ'.Leaving st subs where
  ok := hok
  nodup := (List.nodup_cons.mp h.nodup).2
  sits := by
    intro t ht
    have hne : t ≠ s := by
      rintro rfl
      exact (List.nodup_cons.mp h.nodup).1 ht
    rw [hsub t hne]
    exact h.sits t (List.mem_cons_of_mem _ ht)

theorem detachLocal_ok {st : StreamId} {subs : List SubId} (h : σ.Leaving st subs)
    (hs : σ.detachLocal subs = some σ') : σ'.seats.Ok (· = st) := by
  induction subs generalizing σ with
  | nil => cases hs; exact h.ok
  | cons s subs ih =>
    simp only [detachLocal, Option.bind_eq_bind, Option.bind_eq_some_iff] at hs
    obtain ⟨req, hreq, hs⟩ := hs
    obtain ⟨hok, req', hreq', hstream, hw⟩ := h.first
    have hpath : req'.path = req.path := by
      have hreq' : (σ.sub.modify s _).get s = some req' := hreq'
      rw [Heap.get_modify_self, hreq] at hreq'
      rw [← Option.some.inj hreq']
    refine ih (h.rest ?_ ?_) hs
    · rw [← hpath]
      exact pendLocal_ok hok hreq' hstream hw
    · intro t hne
      show ((σ.sub.modify s _).modify s _).get t = _
      rw [Heap.get_modify_ne hne, Heap.get_modify_ne hne]

theorem detachRemote_ok {st : StreamId} {subs : List SubId} (h : σ.Leaving st subs)
    (hs : σ.detachRemote subs = some σ') : σ'.seats.Ok (· = st) := by
  induction subs generalizing σ with
  | nil => cases hs; exact h.ok
  | cons s subs ih =>
    simp only [detachRemote, Option.bind_eq_bind, Option.bind_eq_some_iff] at hs
    obtain ⟨req, hreq, τ, hτ, hs⟩ := hs
    obtain ⟨hok, req', hreq', hstream, hw⟩ := h.first
    have hpath : req'.path = req.path := by
      have hreq' : (σ.sub.modify s _).get s = some req' := hreq'
      rw [Heap.get_modify_self, hreq] at hreq'
      rw [← Option.some.inj hreq']
    refine ih (h.rest ?_ ?_) hs
    · rw [← hpath] at hτ
      exact pendRemote_ok hok hreq' hstream hw hτ
    · intro t hne
      simp only [brokerSubscribeDisconnectedRemote, Option.bind_eq_bind, Option.bind_eq_some_iff] at hτ
      obtain ⟨len, -, hτ⟩ := hτ
      split at hτ <;> (cases hτ; simp [modSub, Heap.get_modify_ne hne])

theorem values_nodup {stream : BrokerSubStream J} {st : StreamId} (h : σ.SeatsOk)
    (hst : σ.stream.get st = some stream) : stream.reqSubs.values.Nodup := by
  -- a SubRequester is in the map under its own requester only
  apply AssocMap.nodup_values
  intro d d' s hd hd'
  obtain ⟨k, hk, hnode, -⟩ := h.seated st _ d s id (seats_stream hst) hd
  obtain ⟨k', hk', hnode', -⟩ := h.seated st _ d' s id (seats_stream hst) hd'
  cases hk.symm.trans hk'
  exact hnode.symm.trans hnode'

theorem SeatsOk.leaving {stream : BrokerSubStream J} {st : StreamId} (h : σ.SeatsOk)
    (hst : σ.stream.get st = some stream) : σ.Leaving st stream.reqSubs.values where
  ok := h.mono (fun _ => False.elim)
  nodup := values_nodup h hst
  sits := by
    intro s hs
    obtain ⟨d, hd⟩ := AssocMap.mem_values.mp hs
    obtain ⟨k, hk, -, hstream⟩ := h.seated st _ d s id (seats_stream hst) hd
    obtain ⟨req, hreq, rfl⟩ := seats_sub_eq_some.mp hk
    exact ⟨req, hreq, hstream⟩

theorem freeStream_seats (σ : Broker J) (st : StreamId) :
    ({ σ with stream := σ.stream.free st } : Broker J).seats = σ.seats.setStream st none := by
  ext1
  · rfl
  · funext t
    show ((σ.stream.free st).get t).map _ = Function.update σ.seats.stream _ _ t
    rw [Heap.get_free, Function.update_apply]
    split <;> rfl
  · rfl
  · rfl

theorem brokerStreamFree_ok {st : StreamId} (h : σ.SeatsOk) (hs : σ.brokerStreamFree st = some σ') :
    σ'.SeatsOk := by
  simp only [brokerStreamFree, Option.bind_eq_bind, Option.bind_eq_some_iff] at hs
  obtain ⟨stream, hst, hs⟩ := hs
  have hleaving := h.leaving hst
  split at hs
  · rename_i d hd
    simp only [Option.bind_eq_some_iff] at hs
    obtain ⟨-, -, τ, hτ, υ, hυ, hs⟩ := hs
    obtain rfl := Option.some.inj hs
    have hok := detachRemote_ok hleaving hτ
    have hυseats := brokerMsgSendUnsubscribe_seats hυ
    have hstream : υ.seats.stream st = some stream.seat := by
      rw [hυseats, (Frame.detachRemote hτ).seats_stream (by decide), seats_stream hst]
    rw [← hυseats] at hok
    rw [SeatsOk, freeStream_seats, seats_modDnode (g := fun m => Function.update m (stream.remotePath.getD []) none)
      (by intro node; funext p; rw [AssocMap.get_erase, Function.update_apply])]
    refine Seats.Ok.freeStream (hok.setResp ?_) ?_
    · intro m' p st' hm' hp
      obtain ⟨m, hm, rfl⟩ := Option.map_eq_some_iff.mp hm'
      rw [Function.update_apply] at hp
      split at hp
      · cases hp
      · exact hok.streams d m p st' hm hp
    · -- an entry that still points to the stream would be under the path of the stream
      intro e m p hm hp
      have hm : Function.update υ.seats.resp d _ e = some m := hm
      rw [Function.update_apply] at hm
      split at hm
      · obtain ⟨m', hm', rfl⟩ := Option.map_eq_some_iff.mp hm
        rw [Function.update_apply] at hp
        split at hp
        · cases hp
        · rename_i hne
          obtain ⟨x, hx, -, hpath⟩ := hok.streams d m' p st hm' hp
          cases hstream.symm.trans hx
          apply hne
          rw [show stream.remotePath = some p from hpath]
          rfl
      · rename_i hne
        obtain ⟨x, hx, hnode, -⟩ := hok.streams e m p st hm hp
        cases hstream.symm.trans hx
        rw [show stream.seat.respNode = .downstream d from hd] at hnode
        cases hnode
        exact hne rfl
  · rename_i n hn
    simp only [Option.bind_eq_some_iff] at hs
    obtain ⟨-, -, τ, hτ, hs⟩ := hs
    obtain rfl := Option.some.inj hs
    have hok := detachLocal_ok hleaving hτ
    have hstream : τ.seats.stream st = some stream.seat := by
      rw [(Frame.detachLocal hτ).seats_stream (by decide), seats_stream hst]
    rw [SeatsOk, freeStream_seats]
    apply Seats.Ok.freeStream hok
    intro e m p hm hp
    obtain ⟨x, hx, hnode, -⟩ := hok.streams e m p st hm hp
    cases hstream.symm.trans hx
    rw [show stream.seat.respNode = .regular n from hn] at hnode
    cases hnode

/-- Without requesters only the stream goes. -/
theorem brokerStreamFree_empty {st : StreamId} {stream : BrokerSubStream J} (hst : σ.stream.get st = some stream)
    (hempty : stream.reqSubs.size = 0) (hs : σ.brokerStreamFree st = some σ') :
    σ'.seats.sub = σ.seats.sub ∧ σ'.seats.waiting = σ.seats.waiting ∧ σ'.seats.stream st = none := by
  have hnil : stream.reqSubs.values = [] := by
    rw [AssocMap.values, List.length_eq_zero_iff.mp hempty, List.map_nil]
  simp only [brokerStreamFree, Option.bind_eq_bind, Option.bind_eq_some_iff] at hs
  obtain ⟨stream', hst', hs⟩ := hs
  cases hst.symm.trans hst'
  split at hs
  · simp only [hnil, detachRemote, Option.bind_eq_some_iff] at hs
    obtain ⟨-, -, τ, hτ, υ, hυ, hs⟩ := hs
    cases hτ
    obtain rfl := Option.some.inj hs
    have hυseats := brokerMsgSendUnsubscribe_seats hυ
    rw [freeStream_seats, ← hυseats]
    exact ⟨rfl, rfl, Function.update_self ..⟩
  · simp only [hnil, detachLocal, Option.bind_eq_some_iff] at hs
    obtain ⟨-, -, τ, hτ, hs⟩ := hs
    cases hτ
    obtain rfl := Option.some.inj hs
    rw [freeStream_seats]
    exact ⟨rfl, rfl, Function.update_self ..⟩

/-! ## Freeing a SubRequester -/

theorem pendingList_unlinkPending (σ : Broker J) (s : SubId) (key : PendingKey) :
    (σ.unlinkPending s key).seats = σ.seats.setWaiting key ((σ.pendingList key).erase s) := by
  ext1
  · funext t
    cases key <;> (simp only [unlinkPending]; split <;> rfl)
  · funext t
    cases key <;> (simp only [unlinkPending]; split <;> rfl)
  · funext t
    cases key <;> (simp only [unlinkPending]; split <;> rfl)
  · funext key'
    show _ = Function.update σ.pendingList key _ key'
    cases key with
    | localPendingSub path =>
      simp only [unlinkPending]
      split
      · rename_i hnone
        simp [pendingList, seats, hnone, Function.update_apply]
        rintro rfl
        simp [hnone]
      · rename_i subs hsubs
        cases key' with
        | localPendingSub path' =>
          show ((σ.localPendingSub.set path _).get path').getD [] = _
          rw [AssocMap.get_set, Function.update_apply]
          by_cases hp : path' = path <;> simp [hp, hsubs, pendingList]
        | remotePendingSub path' => rfl
    | remotePendingSub path =>
      simp only [unlinkPending]
      split
      · rename_i hnone
        simp [pendingList, seats, hnone, Function.update_apply]
        rintro rfl
        simp [hnone]
      · rename_i subs hsubs
        cases key' with
        | localPendingSub path' => rfl
        | remotePendingSub path' =>
          show ((σ.remotePendingSub.set path _).get path').getD [] = _
          rw [AssocMap.get_set, Function.update_apply]
          by_cases hp : path' = path <;> simp [hp, hsubs, pendingList]

/-- After the `req->pendingNode` block nobody waits under the name of `s`. -/
theorem dropPending_ok {s : SubId} {req : SubRequester J} (h : σ.SeatsOk) (hs : σ.sub.get s = some req) :
    (σ.dropPending s req).SeatsOk ∧ ∀ key, s ∉ (σ.dropPending s req).pendingList key := by
  unfold dropPending
  cases hkey : req.pendingNode with
  | none =>
    refine ⟨h, fun key hw => ?_⟩
    obtain ⟨-, hk⟩ := h.waits_at (seats_sub hs) hw
    rw [show req.seat.pendingNode = none from hkey] at hk
    cases hk
  | some key =>
    have hseats := pendingList_unlinkPending σ s key
    have hok : (σ.unlinkPending s key).SeatsOk := by
      rw [SeatsOk, hseats]
      exact h.thin (List.erase_sublist)
    have hw : ∀ key', s ∉ (σ.unlinkPending s key).pendingList key' := by
      intro key' hw
      have hw : s ∈ (σ.unlinkPending s key).seats.waiting key' := hw
      rw [hseats] at hw
      have hw : s ∈ Function.update σ.pendingList key _ key' := hw
      rw [Function.update_apply] at hw
      split at hw
      · exact (h.nodup key).not_mem_erase hw
      · rename_i hne
        obtain ⟨-, hk⟩ := h.waits_at (seats_sub hs) hw
        rw [show req.seat.pendingNode = some key from hkey] at hk
        exact hne (Option.some.inj hk).symm
    exact ⟨subsListFree_ok hok [s] (by simpa using hw), hw⟩

/-- After the `req->stream` block nobody names `s`. -/
theorem leaveStream_ok {s : SubId} {req : SubRequester J} (h : σ.SeatsOk) (hw : ∀ key, s ∉ σ.pendingList key)
    {k : Seat} (hs : σ.seats.sub s = some k) (hnode : k.reqNode = req.reqNode) (hstream : k.stream = req.stream)
    (hl : σ.leaveStream req = some σ') : σ'.SeatsOk ∧ σ'.seats.Unnamed (fun _ => False) s := by
  unfold leaveStream at hl
  cases hreq : req.stream with
  | none =>
    simp only [hreq] at hl
    cases hl
    exact ⟨h, fun st x d hst hx => h.unseated hs (hstream.trans hreq) hst hx d, hw⟩
  | some st =>
    simp only [hreq, Option.bind_eq_bind, Option.bind_eq_some_iff] at hl
    obtain ⟨stream, hst, hl⟩ := hl
    have hseats := seats_modStream (σ := σ) st
      (f := fun stream' => { stream' with reqSubs := stream.reqSubs.erase req.reqNode })
      (g := fun x => { x with reqSubs := Function.update stream.reqSubs.get req.reqNode none }) (by
        intro stream'
        unfold BrokerSubStream.seat
        congr 1
        funext d
        rw [AssocMap.get_erase, Function.update_apply])
    rw [seats_stream hst] at hseats
    have hok : (σ.modStream st (fun stream' => { stream' with reqSubs := stream.reqSubs.erase req.reqNode })).SeatsOk := by
      rw [SeatsOk, hseats]
      apply h.setStream
      · rintro y d t ⟨⟩ - hd
        have hd : Function.update stream.reqSubs.get req.reqNode none d = some t := hd
        rw [Function.update_apply] at hd
        split at hd
        · cases hd
        · exact h.seated st _ d t id (seats_stream hst) hd
      · intro d m p hm hp
        obtain ⟨x, hx, hx1, hx2⟩ := h.streams d m p st hm hp
        cases (seats_stream hst).symm.trans hx
        exact ⟨_, rfl, hx1, hx2⟩
    have hunnamed : (σ.modStream st (fun stream' =>
        { stream' with reqSubs := stream.reqSubs.erase req.reqNode })).seats.Unnamed (fun _ => False) s := by
      refine ⟨?_, hw⟩
      intro st' x d hst' hx hd
      obtain ⟨k', hk', hd', hstream'⟩ := hok.seated st' x d s hst' hx hd
      cases hs.symm.trans hk'
      rw [hstream, hreq] at hstream'
      cases hstream'
      rw [hseats] at hx
      have hx : Function.update σ.seats.stream st _ st = some x := hx
      rw [Function.update_self] at hx
      cases hx
      have hd : Function.update stream.reqSubs.get req.reqNode none d = some s := hd
      rw [← hd', hnode, Function.update_self] at hd
      cases hd
    split at hl
    · rename_i hempty
      have hst' : (σ.modStream st (fun stream' =>
          { stream' with reqSubs := stream.reqSubs.erase req.reqNode })).stream.get st =
            some { stream with reqSubs := stream.reqSubs.erase req.reqNode } := by
        show (σ.stream.modify st _).get st = _
        rw [Heap.get_modify_self, hst]
        rfl
      obtain ⟨hsub, hwaiting, hgone⟩ := brokerStreamFree_empty hst' hempty hl
      have hok' := brokerStreamFree_ok hok hl
      refine ⟨hok', ?_, ?_⟩
      · intro st' x d hne hx hd
        obtain ⟨k', hk', -, hstream'⟩ := hok'.seated st' x d s hne hx hd
        rw [hsub] at hk'
        cases hs.symm.trans hk'
        rw [hstream, hreq] at hstream'
        cases hstream'
        rw [hgone] at hx
        cases hx
      · intro key
        rw [hwaiting]
        exact hw key
    · cases hl
      exact ⟨hok, hunnamed⟩

theorem freeSub_seats (σ : Broker J) (s : SubId) :
    ({ σ with sub := σ.sub.free s } : Broker J).seats = σ.seats.setSub s none := by
  ext1
  · funext t
    show ((σ.sub.free s).get t).map _ = Function.update σ.seats.sub _ _ t
    rw [Heap.get_free, Function.update_apply]
    split <;> rfl
  · rfl
  · rfl
  · rfl

theorem brokerFreeSubRequester_seats_ok {s : SubId} (h : σ.SeatsOk) (hs : σ.brokerFreeSubRequester s = some σ') :
    σ'.SeatsOk := by
  simp only [brokerFreeSubRequester, releaseSub, Option.bind_eq_bind, Option.bind_eq_some_iff] at hs
  obtain ⟨τ, ⟨req, hreq, node, -, τ1, h1, τ2, h2, h3⟩, υ, hυ, hs⟩ := hs
  obtain rfl := Option.some.inj hs
  have hindex : (σ.dropIndexes req).seats = σ.seats := seats_modDnode_same (fun _ _ => rfl)
  have hok : (σ.dropIndexes req).SeatsOk := by
    rw [SeatsOk, hindex]
    exact h
  obtain ⟨hok1, hw⟩ := dropPending_ok (σ := σ.dropIndexes req) hok hreq
  obtain ⟨k, hk, hnode, hstream⟩ : ∃ k, ((σ.dropIndexes req).dropPending s req).seats.sub s = some k ∧
      k.reqNode = req.reqNode ∧ k.stream = req.stream := by
    unfold dropPending
    split
    · exact ⟨req.seat, seats_sub (σ := σ.dropIndexes req) hreq, rfl, rfl⟩
    · rename_i key _
      rw [seats_modSub (g := fun k => { k with pendingNode := none }) (fun _ => rfl), pendingList_unlinkPending]
      refine ⟨{ req.seat with pendingNode := none }, ?_, rfl, rfl⟩
      show Function.update (σ.dropIndexes req).seats.sub s (((σ.dropIndexes req).seats.sub s).map _) s = _
      rw [Function.update_self, seats_sub (σ := σ.dropIndexes req) hreq]
      rfl
  obtain ⟨hok2, hunnamed⟩ := leaveStream_ok hok1 hw hk hnode hstream h1
  have hf : Frame [.storage, .qosQueue, .queue, .acks] τ1 υ :=
    ((Frame.dropStored h2).mono (by decide)).trans (((Frame.dropQosQueue h3).mono (by decide)).trans
      ((Frame.purgePendingAcks hυ).mono (by decide)))
  rw [SeatsOk, freeSub_seats, hf.seats (by decide) (by decide) (by decide) (by decide) (hf.seats_resp (by decide))]
  exact hok2.setSub_unnamed hunnamed none

end Broker

end DSLink
