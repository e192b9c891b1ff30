import DSLink.Broker.Sids

/-!
# `Broker.Demands` — the qos a stream has and the qos its link was told

A stream of a link keeps the largest qos of its requesters in `respQos` and asks its link for it. `Demands` is the
part of the state this is about: the qos of the SubRequesters, the streams, and the subscribe requests sent on every
link. `Demands.Ok` says that `respQos` is the largest qos and the last request for the stream carried it.

## Contents
- `lastAsk`: the qos in the last request for a path and a sid.
- `Demands`, `Demands.Ok` and one lemma for each kind of change.
-/

namespace DSLink

variable {J : Type}

/-! ## Requests -/

/-- What a subscribe request asks for: the path, the sid, the qos. -/
def messageAsk : OutMsg J → Option (CString × Nat × Nat)
  | .subscribe _ path sid qos => some (path, sid, qos)
  | _ => none

theorem unread_messageAsk : Unread (messageAsk (J := J)) := fun _ _ => rfl

/-- The qos in the last request for a path and a sid. -/
def lastAsk (l : List (CString × Nat × Nat)) (path : CString) (sid : Nat) : Option Nat :=
  (l.filter (fun a => decide (a.1 = path ∧ a.2.1 = sid))).getLast?.map (fun a => a.2.2)

theorem lastAsk_append_self (l : List (CString × Nat × Nat)) (path : CString) (sid qos : Nat) :
    lastAsk (l ++ [(path, sid, qos)]) path sid = some qos := by
  simp [lastAsk]

theorem lastAsk_append_ne (l : List (CString × Nat × Nat)) {path path' : CString} (sid sid' qos : Nat)
    (h : path' ≠ path) : lastAsk (l ++ [(path', sid', qos)]) path sid = lastAsk l path sid := by
  unfold lastAsk
  rw [List.filter_append, List.filter_cons_of_neg (by simp [h]), List.filter_nil, List.append_nil]

/-! ## Demands -/

/-- A stream with its requesters and the qos asked for them. -/
structure DemandStream where
  respNode : NodeRef
  respSid : Nat
  respQos : Nat
  remotePath : Option CString
  reqSubs : DownId → Option SubId

/-- The stream without the requester `d`. -/
def DemandStream.without (x : DemandStream) (d : DownId) : DemandStream :=
  { x with reqSubs := Function.update x.reqSubs d none }

/-- Everything the qos of streams depends on. `home` is the stream of each local node. -/
@[ext] structure Demands where
  qos : SubId → Option Nat
  stream : StreamId → Option DemandStream
  resp : DownId → Option (CString → Option StreamId)
  asks : DownId → Option (Option (List (CString × Nat × Nat)))
  home : NodeId → Option StreamId

namespace Demands

/-- The qos of a stream is the largest one of its requesters. -/
def Top (S : Demands) (x : DemandStream) : Prop :=
  (∀ e s, x.reqSubs e = some s → ∃ q, S.qos s = some q ∧ q ≤ x.respQos) ∧
    ((∃ e s, x.reqSubs e = some s) → ∃ e s, x.reqSubs e = some s ∧ S.qos s = some x.respQos)

/-- The last request for the stream carried its qos. -/
def Told (S : Demands) (x : DemandStream) : Prop :=
  ∀ d p l, x.respNode = .downstream d → x.remotePath = some p → S.asks d = some (some l) →
    lastAsk l p x.respSid = some x.respQos

/-- Streams are in their places, and every stream of a link has the qos it should have, but for the streams in `ex`,
    and asked for it, but for those in `late`. -/
structure Ok (ex late : StreamId → Prop) (S : Demands) : Prop where
  home : ∀ n st, S.home n = some st → ∃ x, S.stream st = some x ∧ x.respNode = .regular n
  listed : ∀ d m p st, S.resp d = some m → m p = some st →
    ∃ x, S.stream st = some x ∧ x.respNode = .downstream d ∧ x.remotePath = some p
  filed : ∀ st x d, S.stream st = some x → x.respNode = .downstream d →
    ∃ m p, S.resp d = some m ∧ x.remotePath = some p ∧ m p = some st
  top : ∀ st x d, ¬ex st → S.stream st = some x → x.respNode = .downstream d → S.Top x
  told : ∀ st x, ¬late st → S.stream st = some x → S.Told x

/-- No stream is left out. -/
abbrev AllOk (S : Demands) : Prop := S.Ok (fun _ => False) (fun _ => False)

variable {S : Demands} {ex late : StreamId → Prop}

theorem Ok.congr {S' : Demands} (h : S.Ok ex late) (hs : S' = S) : S'.Ok ex late := by
  rw [hs]
  exact h

theorem Ok.mono {ex' late' : StreamId → Prop} (h : S.Ok ex late) (hex : ∀ st, ex st → ex' st)
    (hlate : ∀ st, late st → late' st) : S.Ok ex' late' :=
  ⟨h.home, h.listed, h.filed, fun st x d hst => h.top st x d (fun he => hst (hex st he)),
    fun st x hst => h.told st x (fun he => hst (hlate st he))⟩

theorem Top.congr {S' : Demands} {x : DemandStream} (h : S.Top x)
    (hq : ∀ e s, x.reqSubs e = some s → S'.qos s = S.qos s) : S'.Top x := by
  constructor
  · intro e s hs
    rw [hq e s hs]
    exact h.1 e s hs
  · intro hne
    obtain ⟨e, s, hs, hmax⟩ := h.2 hne
    exact ⟨e, s, hs, (hq e s hs).trans hmax⟩

/-- `s` sits in no stream of a link but those in `ex`. -/
def Absent (S : Demands) (ex : StreamId → Prop) (s : SubId) : Prop :=
  ∀ st x d e, ¬ex st → S.stream st = some x → x.respNode = .downstream d → x.reqSubs e ≠ some s

/-- A SubRequester that sits in no stream of a link gets another qos, or goes. -/
theorem Ok.setQos (h : S.Ok ex late) {s : SubId} (hs : S.Absent ex s) (q : Option Nat) :
    Ok ex late { S with qos := Function.update S.qos s q } where
  home := h.home
  listed := h.listed
  filed := h.filed
  top := by
    intro st x d hst hx hd
    refine (h.top st x d hst hx hd).congr ?_
    intro e t ht
    apply Function.update_of_ne
    rintro rfl
    exact hs st x d e hst hx hd ht
  told := h.told

/-- A stream of a local node comes, or its requesters change. -/
theorem Ok.setLocal (h : S.Ok ex late) (st : StreamId) (x : DemandStream) (n : NodeId)
    (hst : ∀ y, S.stream st = some y → y.respNode = .regular n) (hx : x.respNode = .regular n)
    (o : NodeId → Option StreamId) (ho : ∀ m t, o m = some t → S.home m = some t ∨ m = n ∧ t = st) :
    Ok ex late { S with stream := Function.update S.stream st (some x), home := o } where
  home := by
    intro m t hm
    show ∃ y, Function.update S.stream st (some x) t = some y ∧ _
    rcases ho m t hm with hold | ⟨rfl, rfl⟩
    · by_cases ht : t = st
      · subst ht
        obtain ⟨y, hy, hyn⟩ := h.home m t hold
        rw [hst y hy] at hyn
        cases hyn
        exact ⟨x, Function.update_self .., hx⟩
      · rw [Function.update_of_ne ht]
        exact h.home m t hold
    · exact ⟨x, Function.update_self .., hx⟩
  listed := by
    intro d m p t hm hp
    obtain ⟨y, hy, hyd, hyp⟩ := h.listed d m p t hm hp
    refine ⟨y, ?_, hyd, hyp⟩
    refine (Function.update_of_ne ?_ ..).trans hy
    rintro rfl
    rw [hst y hy] at hyd
    cases hyd
  filed := by
    intro t y d hy hd
    have hy : Function.update S.stream st (some x) t = some y := hy
    rw [Function.update_apply] at hy
    split at hy
    · obtain rfl := Option.some.inj hy
      rw [hx] at hd
      cases hd
    · exact h.filed t y d hy hd
  top := by
    intro t y d ht hy hd
    have hy : Function.update S.stream st (some x) t = some y := hy
    rw [Function.update_apply] at hy
    split at hy
    · obtain rfl := Option.some.inj hy
      rw [hx] at hd
      cases hd
    · exact h.top t y d ht hy hd
  told := by
    intro t y ht hy d p l hd hp hl
    have hy : Function.update S.stream st (some x) t = some y := hy
    rw [Function.update_apply] at hy
    split at hy
    · obtain rfl := Option.some.inj hy
      rw [hx] at hd
      cases hd
    · exact h.told t y ht hy d p l hd hp hl

/-- The stream `st` of `d` for `p` becomes `x`, and if `sent`, its link is asked for it. -/
def put (S : Demands) (d : DownId) (p : CString) (st : StreamId) (x : DemandStream) (sent : Bool) : Demands where
  qos := S.qos
  stream := Function.update S.stream st (some x)
  resp := Function.update S.resp d ((S.resp d).map (fun m => Function.update m p (some st)))
  asks := if sent then Function.update S.asks d ((S.asks d).map (fun l => l.map (· ++ [(p, x.respSid, x.respQos)])))
    else S.asks
  home := S.home

/-- A stream takes its place, with the right qos unless it is in `ex`, and its link is asked for it or knows it
    unless it is in `late`. -/
theorem Ok.put {d : DownId} {p : CString} {st : StreamId} {x : DemandStream} {sent : Bool}
    {m : CString → Option StreamId} (h : S.Ok (fun t => ex t ∨ t = st) (fun t => late t ∨ t = st))
    (hm : S.resp d = some m) (hold : m p = some st ∨ m p = none ∧ S.stream st = none)
    (hd : x.respNode = .downstream d) (hp : x.remotePath = some p) (htop : ¬ex st → S.Top x)
    (htold : ¬late st → sent = true ∨ S.Told x) : (S.put d p st x sent).Ok ex late := by
  -- what the place belonged to before
  have hold' : ∀ y, S.stream st = some y → y.respNode = .downstream d ∧ y.remotePath = some p := by
    intro y hy
    rcases hold with hold | ⟨-, hnone⟩
    · obtain ⟨y', hy', hyd, hyp⟩ := h.listed d m p st hm hold
      cases hy.symm.trans hy'
      exact ⟨hyd, hyp⟩
    · rw [hnone] at hy
      cases hy
  have hother : ∀ {t y}, (S.put d p st x sent).stream t = some y → t = st ∧ y = x ∨ t ≠ st ∧ S.stream t = some y := by
    intro t y hy
    have hy : Function.update S.stream st (some x) t = some y := hy
    rw [Function.update_apply] at hy
    split at hy
    · exact .inl ⟨‹_›, (Option.some.inj hy).symm⟩
    · exact .inr ⟨‹_›, hy⟩
  constructor
  · -- the streams at nodes of the broker
    intro n t hn
    obtain ⟨y, hy, hyn⟩ := h.home n t hn
    refine ⟨y, (Function.update_of_ne ?_ ..).trans hy, hyn⟩
    rintro rfl
    rw [(hold' y hy).1] at hyn
    cases hyn
  · -- what the tables list
    intro e m' q t hm' hq
    have hm' : Function.update S.resp d _ e = some m' := hm'
    rw [Function.update_apply] at hm'
    split at hm'
    · rename_i he
      subst he
      rw [hm] at hm'
      obtain rfl := Option.some.inj hm'
      have hq : Function.update m p (some st) q = some t := hq
      rw [Function.update_apply] at hq
      split at hq
      · rename_i hqp
        obtain rfl := Option.some.inj hq
        exact ⟨x, Function.update_self .., hd, by rw [hp, hqp]⟩
      · rename_i hqp
        obtain ⟨y, hy, hyd, hyp⟩ := h.listed e m q t hm hq
        refine ⟨y, (Function.update_of_ne ?_ ..).trans hy, hyd, hyp⟩
        rintro rfl
        exact hqp (Option.some.inj (hyp.symm.trans (hold' y hy).2))
    · rename_i he
      obtain ⟨y, hy, hyd, hyp⟩ := h.listed e m' q t hm' hq
      refine ⟨y, (Function.update_of_ne ?_ ..).trans hy, hyd, hyp⟩
      rintro rfl
      exact he (NodeRef.downstream.inj (hyd.symm.trans (hold' y hy).1))
  · -- every remote stream is listed
    intro t y e hy he
    show ∃ m' q, Function.update S.resp d _ e = some m' ∧ _
    rcases hother hy with ⟨rfl, rfl⟩ | ⟨hne, hy⟩
    · rw [hd] at he
      cases he
      rw [Function.update_self, hm]
      exact ⟨_, p, rfl, hp, Function.update_self ..⟩
    · obtain ⟨m', q, hm', hq, hmq⟩ := h.filed t y e hy he
      by_cases hed : e = d
      · subst hed
        cases hm.symm.trans hm'
        rw [Function.update_self, hm]
        refine ⟨_, q, rfl, hq, (Function.update_of_ne ?_ ..).trans hmq⟩
        rintro rfl
        rcases hold with hold | ⟨hnone, -⟩
        · rw [hold] at hmq
          exact hne (Option.some.inj hmq).symm
        · rw [hnone] at hmq
          cases hmq
      · rw [Function.update_of_ne hed]
        exact ⟨m', q, hm', hq, hmq⟩
  · intro t y e ht hy he
    rcases hother hy with ⟨rfl, rfl⟩ | ⟨hne, hy'⟩
    · exact htop ht
    · exact h.top t y e (fun hc => hc.elim ht hne) hy' he
  · -- the last request for a path is the one of its stream
    intro t y ht hy e q l he hq hl
    have hasks : (S.put d p st x sent).asks = if sent then Function.update S.asks d ((S.asks d).map
      (fun l => l.map (· ++ [(p, x.respSid, x.respQos)]))) else S.asks := rfl
    rw [hasks] at hl
    rcases hother hy with ⟨rfl, rfl⟩ | ⟨hne, hy'⟩
    · rw [hd] at he
      cases he
      cases hp.symm.trans hq
      cases sent with
      | true =>
        rw [if_pos rfl, Function.update_self] at hl
        obtain ⟨o, -, ho⟩ := Option.map_eq_some_iff.mp hl
        obtain ⟨l', -, rfl⟩ := Option.map_eq_some_iff.mp ho
        exact lastAsk_append_self ..
      | false => exact (htold ht).resolve_left (by decide) d p l hd hp hl
    · have hbefore : ∀ l', S.asks e = some (some l') → lastAsk l' q y.respSid = some y.respQos :=
        fun l' hl' => h.told t y (fun hc => hc.elim ht hne) hy' e q l' he hq hl'
      cases sent with
      | false => exact hbefore l hl
      | true =>
        rw [if_pos rfl, Function.update_apply] at hl
        split at hl
        · rename_i hed
          subst hed
          obtain ⟨o, ho, hol⟩ := Option.map_eq_some_iff.mp hl
          obtain ⟨l', rfl, rfl⟩ := Option.map_eq_some_iff.mp hol
          rw [lastAsk_append_ne]
          · exact hbefore l' ho
          · -- another stream of the link has another path
            rintro rfl
            obtain ⟨m', q', hm', hq', hmq⟩ := h.filed t y e hy' he
            cases hm.symm.trans hm'
            cases hq.symm.trans hq'
            rcases hold with hold | ⟨hnone, -⟩
            · rw [hold] at hmq
              exact hne (Option.some.inj hmq).symm
            · rw [hnone] at hmq
              cases hmq
        · exact hbefore l hl

/-- In its own place a stream only changes. -/
theorem put_same {d : DownId} {p : CString} {st : StreamId} {m : CString → Option StreamId} (hm : S.resp d = some m)
    (hp : m p = some st) (x : DemandStream) :
    S.put d p st x false = { S with stream := Function.update S.stream st (some x) } := by
  unfold put
  rw [hm, Option.map_some, ← hp, Function.update_eq_self, ← hm, Function.update_eq_self]
  rfl

/-! ### Leaving -/

/-- Without `d` the stream `st` of a link has the same maximum: nobody else is there, or somebody who asks for as
    much. -/
def Spare (S : Demands) (st : StreamId) (d : DownId) : Prop :=
  ∀ x, S.stream st = some x → x.remotePath ≠ none → (∃ e, e ≠ d ∧ x.reqSubs e ≠ none) →
    ∀ t q, x.reqSubs d = some t → S.qos t = some q →
      ∃ e u q', e ≠ d ∧ x.reqSubs e = some u ∧ S.qos u = some q' ∧ q ≤ q'

theorem without_eq_some {x : DemandStream} {d e : DownId} {s : SubId} (h : (x.without d).reqSubs e = some s) :
    e ≠ d ∧ x.reqSubs e = some s := by
  have h : Function.update x.reqSubs d none e = some s := h
  rw [Function.update_apply] at h
  split at h
  · cases h
  · exact ⟨‹_›, h⟩

theorem Spare.top {st : StreamId} {d : DownId} {x : DemandStream} (h : S.Spare st d) (hst : S.stream st = some x)
    (hpath : x.remotePath ≠ none) (htop : S.Top x) : S.Top (x.without d) := by
  constructor
  · intro e s he
    exact htop.1 e s (without_eq_some he).2
  · rintro ⟨e, s, hsome⟩
    obtain ⟨hne, he⟩ := without_eq_some hsome
    obtain ⟨e', t, ht, hmax⟩ := htop.2 ⟨e, s, he⟩
    by_cases hleft : e' = d
    · -- who leaves asked for the maximum: somebody who stays does too
      subst hleft
      obtain ⟨e2, u, q, hne2, hu, hq, hle⟩ := h x hst hpath ⟨e, hne, by simp [he]⟩ t x.respQos ht hmax
      obtain ⟨q', hq', hle'⟩ := htop.1 e2 u hu
      cases hq.symm.trans hq'
      refine ⟨e2, u, (Function.update_of_ne hne2 ..).trans hu, ?_⟩
      rw [hq]
      exact congrArg some (Nat.le_antisymm hle' hle)
    · exact ⟨e', t, (Function.update_of_ne hleft ..).trans ht, hmax⟩

/-- While `d` leaves other streams, those who stay keep their qos. -/
theorem Spare.keep {S' : Demands} {st : StreamId} {d : DownId} (h : S.Spare st d)
    (hstream : ∀ x', S'.stream st = some x' → ∃ x, S.stream st = some x ∧ (x' = x ∨ x' = x.without d))
    (hqos : ∀ t q, S'.qos t = some q → S.qos t = some q)
    (hstay : ∀ x e u, S.stream st = some x → e ≠ d → x.reqSubs e = some u → S'.qos u = S.qos u) : S'.Spare st d := by
  intro x' hx' hpath hmore t q ht hq
  obtain ⟨x, hx, rfl | rfl⟩ := hstream x' hx'
  · obtain ⟨e, u, q', hne, hu, hq', hle⟩ := h x' hx hpath hmore t q ht (hqos t q hq)
    exact ⟨e, u, q', hne, hu, (hstay x' e u hx hne hu).trans hq', hle⟩
  · exact absurd rfl (without_eq_some ht).1

/-- A requester leaves a stream. -/
theorem Ok.without (h : S.Ok ex late) {st : StreamId} {x : DemandStream} (hst : S.stream st = some x) {d : DownId}
    (hspare : S.Spare st d) : Ok ex late { S with stream := Function.update S.stream st (some (x.without d)) } := by
  cases hx : x.respNode with
  | regular n =>
    refine h.setLocal st (x.without d) n ?_ hx S.home (fun _ _ hm => .inl hm)
    intro y hy
    cases hst.symm.trans hy
    exact hx
  | downstream e =>
    obtain ⟨m, p, hm, hp, hmp⟩ := h.filed st x e hst hx
    rw [← put_same hm hmp]
    refine Ok.put (h.mono (fun _ => .inl) (fun _ => .inl)) hm (.inl hmp) hx hp ?_ ?_
    · intro hex
      exact hspare.top hst (by simp [hp]) (h.top st x e hex hst hx)
    · intro hlate
      exact .inr (h.told st x hlate hst)

/-- The stream `st` goes, out of all maps. -/
def drop (S : Demands) (st : StreamId) : Demands :=
  { S with
    stream := Function.update S.stream st none
    resp := fun d => (S.resp d).map (fun m p => butFor st (m p))
    home := fun n => butFor st (S.home n) }

theorem Ok.drop (h : S.Ok ex late) (st : StreamId) : (S.drop st).Ok ex late := by
  have hback : ∀ {t y}, (S.drop st).stream t = some y → t ≠ st ∧ S.stream t = some y := by
    intro t y hy
    have hy : Function.update S.stream st none t = some y := hy
    rw [Function.update_apply] at hy
    split at hy
    · cases hy
    · exact ⟨‹_›, hy⟩
  constructor
  · intro n t hn
    obtain ⟨hn, hne⟩ := butFor_eq_some.mp hn
    obtain ⟨x, hx, hxn⟩ := h.home n t hn
    exact ⟨x, (Function.update_of_ne hne ..).trans hx, hxn⟩
  · intro d m' p t hm' hp
    obtain ⟨m, hm, rfl⟩ := Option.map_eq_some_iff.mp hm'
    obtain ⟨hp, hne⟩ := butFor_eq_some.mp hp
    obtain ⟨x, hx, hx'⟩ := h.listed d m p t hm hp
    exact ⟨x, (Function.update_of_ne hne ..).trans hx, hx'⟩
  · intro t x d hx hd
    obtain ⟨hne, hx⟩ := hback hx
    obtain ⟨m, p, hm, hp, hmp⟩ := h.filed t x d hx hd
    exact ⟨_, p, congrArg (Option.map _) hm, hp, butFor_eq_some.mpr ⟨hmp, hne⟩⟩
  · intro t x d ht hx hd
    obtain ⟨-, hx⟩ := hback hx
    exact h.top t x d ht hx hd
  · intro t x ht hx
    obtain ⟨-, hx⟩ := hback hx
    exact h.told t x ht hx

/-- What may be a stream goes. -/
def dropAny (S : Demands) (st : Option StreamId) : Demands := st.elim S S.drop

theorem dropAny_resp {gone : Option StreamId} {d : DownId} {m : CString → Option StreamId}
    (h : (S.dropAny gone).resp d = some m) : ∃ m', S.resp d = some m' := by
  cases gone with
  | none => exact ⟨m, h⟩
  | some st =>
    obtain ⟨m', hm', -⟩ := Option.map_eq_some_iff.mp h
    exact ⟨m', hm'⟩

/-- The requester `d` has left its stream, and `gone` went with it. -/
structure Left (S S' : Demands) (d : DownId) (gone : Option StreamId) : Prop where
  stream : ∀ st x', S'.stream st = some x' → ∃ x, S.stream st = some x ∧ (x' = x ∨ x' = x.without d)
  resp : S'.resp = (S.dropAny gone).resp
  asks : S'.asks = S.asks

/-- Local nodes may forget their streams. -/
theorem Ok.forget (h : S.Ok ex late) (o : NodeId → Option StreamId) (ho : ∀ n st, o n = some st → S.home n = some st) :
    Ok ex late { S with home := o } :=
  ⟨fun n st hn => h.home n st (ho n st hn), h.listed, h.filed, h.top, h.told⟩

/-- A link goes that has no stream. -/
theorem Ok.dropMaps (h : S.Ok ex late) {d : DownId} {m : CString → Option StreamId} (hm : S.resp d = some m)
    (hempty : ∀ p, m p = none) :
    Ok ex late { S with resp := Function.update S.resp d none, asks := Function.update S.asks d none } where
  home := h.home
  listed := by
    intro e m' p st hm' hp
    have hm' : Function.update S.resp d none e = some m' := hm'
    rw [Function.update_apply] at hm'
    split at hm'
    · cases hm'
    · exact h.listed e m' p st hm' hp
  filed := by
    intro st x e hx he
    obtain ⟨m', p, hm', hp, hmp⟩ := h.filed st x e hx he
    refine ⟨m', p, (Function.update_of_ne ?_ ..).trans hm', hp, hmp⟩
    rintro rfl
    cases hm.symm.trans hm'
    rw [hempty] at hmp
    cases hmp
  top := h.top
  told := by
    intro st x hst hx e p l he hp hl
    have hl : Function.update S.asks d none e = some (some l) := hl
    rw [Function.update_apply] at hl
    split at hl
    · cases hl
    · exact h.told st x hst hx e p l he hp hl

/-- A link comes that was not there. -/
theorem Ok.newMaps (h : S.Ok ex late) {d : DownId} (hd : S.resp d = none) :
    Ok ex late { S with
      resp := Function.update S.resp d (some fun _ => none), asks := Function.update S.asks d (some none) } where
  home := h.home
  listed := by
    intro e m' p st hm' hp
    have hm' : Function.update S.resp d _ e = some m' := hm'
    rw [Function.update_apply] at hm'
    split at hm'
    · obtain rfl := Option.some.inj hm'
      cases hp
    · exact h.listed e m' p st hm' hp
  filed := by
    intro st x e hx he
    obtain ⟨m', p, hm', hp, hmp⟩ := h.filed st x e hx he
    refine ⟨m', p, (Function.update_of_ne ?_ ..).trans hm', hp, hmp⟩
    rintro rfl
    rw [hd] at hm'
    cases hm'
  top := h.top
  told := by
    intro st x hst hx e p l he hp hl
    have hl : Function.update S.asks d (some none) e = some (some l) := hl
    rw [Function.update_apply] at hl
    split at hl
    · cases hl
    · exact h.told st x hst hx e p l he hp hl

/-- A link closes: nobody has to be told. -/
theorem Ok.close (h : S.Ok ex late) (d : DownId) (o : Option (Option (List (CString × Nat × Nat))))
    (ho : ∀ l, o ≠ some (some l)) : Ok ex late { S with asks := Function.update S.asks d o } where
  home := h.home
  listed := h.listed
  filed := h.filed
  top := h.top
  told := by
    intro st x hst hx e p l he hp hl
    have hl : Function.update S.asks d o e = some (some l) := hl
    rw [Function.update_apply] at hl
    split at hl
    · exact absurd hl (ho l)
    · exact h.told st x hst hx e p l he hp hl

/-- A link opens: its streams are to be told. -/
theorem Ok.opened (h : S.Ok ex late) {d : DownId} {m : CString → Option StreamId} (hm : S.resp d = some m)
    (l0 : List (CString × Nat × Nat)) :
    Ok ex (fun st => late st ∨ ∃ p, m p = some st) { S with asks := Function.update S.asks d (some (some l0)) } where
  home := h.home
  listed := h.listed
  filed := h.filed
  top := h.top
  told := by
    intro st x hst hx e p l he hp hl
    have hl : Function.update S.asks d _ e = some (some l) := hl
    rw [Function.update_apply] at hl
    split at hl
    · rename_i hed
      subst hed
      obtain ⟨m', q, hm', -, hmq⟩ := h.filed st x e hx he
      cases hm.symm.trans hm'
      exact absurd (.inr ⟨q, hmq⟩) hst
    · exact h.told st x (fun hc => hst (.inl hc)) hx e p l he hp hl

end Demands

end DSLink
