import DSLink.Sdk.Responder

/-!
# `Sdk.ListStreams` — the list streams of a responder

The string of the path of a list stream belongs to the key of `list_subs`, which has room for one rid of a path. So
a list request must not come while its path is listed under another rid, and no request may take the rid of a list
stream of another path; everything else is fine.

## Contents
- `Listed`: what `list_subs` says is so, and every list stream has its path.
- `Streams`: the invariant; `Streams.closed`, `Streams.openedList`, `Streams.openedInvocation`.
- `Event.fits`, `list_streams_kept`; `list_stream_listed_twice`: a path under two rids.
-/

namespace DSLink.Responder

/-- What `list_subs` says of a path is so, and the path of every list stream is there. -/
def Listed (σ : State) : Prop :=
  (∀ p sub, σ.listSubs.get p = some sub →
    ∃ stream, σ.openStreams.get sub.rid = some stream ∧ stream.type = .list ∧ σ.str.get stream.path = some p) ∧
  ∀ r stream, σ.openStreams.get r = some stream → stream.type = .list → ∃ p, σ.str.get stream.path = some p

/-- Every open stream has a string of its own, and the list streams are those in `list_subs`. -/
structure Streams (σ : State) : Prop where
  live : ∀ r stream, σ.openStreams.get r = some stream → ∃ p, σ.str.get stream.path = some p
  apart : ∀ r r' stream stream', σ.openStreams.get r = some stream → σ.openStreams.get r' = some stream' →
    stream.path = stream'.path → r = r'
  subs : ∀ p k r, σ.listSubs.get p = some ⟨k, r⟩ ↔
    σ.openStreams.get r = some ⟨.list, k⟩ ∧ σ.str.get k = some p

/-- What the streams are made of. -/
def State.streams (σ : State) : Heap CString × AssocMap Nat Stream × AssocMap CString ListSub :=
  (σ.str, σ.openStreams, σ.listSubs)

section

variable {σ σ' τ : State} {p q : CString} {k n r : Nat} {stream : Stream} {sub : ListSub}

theorem Streams.congr (hσ : Streams σ) (h : τ.streams = σ.streams) : Streams τ := by
  simp only [State.streams, Prod.mk.injEq] at h
  obtain ⟨h1, h2, h3⟩ := h
  constructor
  · rw [h1, h2]
    exact hσ.live
  · rw [h2]
    exact hσ.apart
  · rw [h1, h2, h3]
    exact hσ.subs

theorem streams_of_tables (h : τ.tables = σ.tables) : τ.streams = σ.streams := by
  simp only [State.tables, Prod.mk.injEq] at h
  simp only [State.streams, h.1, h.2.1, h.2.2.1]

theorem Streams.listed (hσ : Streams σ) : Listed σ := by
  refine ⟨fun p sub h => ?_, fun r stream h _ => hσ.live r stream h⟩
  obtain ⟨h1, h2⟩ := (hσ.subs p sub.key sub.rid).mp h
  exact ⟨_, h1, rfl, h2⟩

/-! ## A stream less, a stream more -/

theorem Streams.closed (hσ : Streams σ) (hr : σ.openStreams.get r = some stream) (hk : σ.str.get stream.path = some p)
    (hopen : σ'.openStreams = σ.openStreams.erase r)
    (hlist : ∀ q, σ'.listSubs.get q = if stream.type = .list ∧ q = p then none else σ.listSubs.get q)
    (hstr : ∀ k, k ≠ stream.path → σ'.str.get k = σ.str.get k) : Streams σ' := by
  have hother : ∀ r' stream', r' ≠ r → σ.openStreams.get r' = some stream' →
      σ'.str.get stream'.path = σ.str.get stream'.path := by
    intro r' stream' hne h
    exact hstr _ (fun he => hne (hσ.apart r' r stream' stream h hr he))
  constructor
  · intro r' stream' h
    rw [hopen] at h
    obtain ⟨hne, h⟩ := AssocMap.get_erase_eq_some.mp h
    rw [hother r' stream' hne h]
    exact hσ.live r' stream' h
  · intro r1 r2 s1 s2 h1 h2
    rw [hopen] at h1 h2
    exact hσ.apart r1 r2 s1 s2 (AssocMap.get_erase_eq_some.mp h1).2 (AssocMap.get_erase_eq_some.mp h2).2
  · intro q k' r'
    rw [hlist, hopen]
    constructor
    · intro h
      split at h
      · cases h
      · rename_i hno
        obtain ⟨h1, h2⟩ := (hσ.subs q k' r').mp h
        have hne : r' ≠ r := by
          rintro rfl
          cases hr.symm.trans h1
          exact hno ⟨rfl, Option.some.inj (h2.symm.trans hk)⟩
        rw [AssocMap.get_erase_ne hne]
        have h3 := hother r' _ hne h1
        exact ⟨h1, h3.trans h2⟩
    · rintro ⟨h1, h2⟩
      obtain ⟨hne, h1⟩ := AssocMap.get_erase_eq_some.mp h1
      have h3 := hother r' _ hne h1
      have h4 := (hσ.subs q k' r').mpr ⟨h1, h3.symm.trans h2⟩
      rw [if_neg]
      · exact h4
      · rintro ⟨hl, rfl⟩
        obtain ⟨ty, path⟩ := stream
        obtain rfl : ty = .list := hl
        have h5 := (hσ.subs q path r).mpr ⟨hr, hk⟩
        cases h4.symm.trans h5
        exact hne rfl

/-- The strings of the other streams are what they were. -/
def Others (σ σ' : State) (r n : Nat) : Prop :=
  ∀ r' stream', r' ≠ r → σ.openStreams.get r' = some stream' →
    stream'.path ≠ n ∧ σ'.str.get stream'.path = σ.str.get stream'.path

theorem Streams.opened_live (hσ : Streams σ) {type : StreamType}
    (hopen : σ'.openStreams = σ.openStreams.set r ⟨type, n⟩)
    (hn : σ'.str.get n = some p) (hother : Others σ σ' r n) :
    (∀ r' stream', σ'.openStreams.get r' = some stream' → ∃ p, σ'.str.get stream'.path = some p) ∧
    ∀ r1 r2 s1 s2, σ'.openStreams.get r1 = some s1 → σ'.openStreams.get r2 = some s2 → s1.path = s2.path → r1 = r2 := by
  constructor
  · intro r' stream' h
    rw [hopen, AssocMap.get_set] at h
    split at h
    · cases h
      exact ⟨p, hn⟩
    · rename_i hne
      rw [(hother r' stream' hne h).2]
      exact hσ.live r' stream' h
  · intro r1 r2 s1 s2 h1 h2 he
    rw [hopen, AssocMap.get_set] at h1 h2
    split at h1
    · split at h2
      · rename_i e1 e2
        rw [e1, e2]
      · rename_i hne
        cases h1
        exact absurd he.symm (hother r2 s2 hne h2).1
    · rename_i hne
      split at h2
      · cases h2
        exact absurd he (hother r1 s1 hne h1).1
      · exact hσ.apart r1 r2 s1 s2 h1 h2 he

theorem Streams.openedList (hσ : Streams σ) (hopen : σ'.openStreams = σ.openStreams.set r ⟨.list, n⟩)
    (hlist : σ'.listSubs = σ.listSubs.set p ⟨n, r⟩) (hn : σ'.str.get n = some p) (hother : Others σ σ' r n)
    (hsub : ∀ sub, σ.listSubs.get p = some sub → sub.rid = r)
    (hrid : ∀ k, σ.openStreams.get r = some ⟨.list, k⟩ → σ.str.get k = some p) : Streams σ' := by
  obtain ⟨h1, h2⟩ := hσ.opened_live hopen hn hother
  refine ⟨h1, h2, fun q k' r' => ?_⟩
  rw [hlist, hopen, AssocMap.get_set, AssocMap.get_set]
  constructor
  · intro h
    split at h
    · rename_i hq
      cases h
      rw [if_pos rfl, hq]
      exact ⟨rfl, hn⟩
    · rename_i hq
      obtain ⟨h3, h4⟩ := (hσ.subs q k' r').mp h
      have hne : r' ≠ r := by
        rintro rfl
        exact hq (Option.some.inj (h4.symm.trans (hrid k' h3)))
      have h5 := (hother r' _ hne h3).2
      rw [if_neg hne]
      exact ⟨h3, h5.trans h4⟩
  · rintro ⟨h3, h4⟩
    split at h3
    · rename_i hr
      cases h3
      rw [if_pos (Option.some.inj (h4.symm.trans hn)), hr]
    · rename_i hne
      have h5 := (hother r' _ hne h3).2
      have h6 := (hσ.subs q k' r').mpr ⟨h3, h5.symm.trans h4⟩
      rw [if_neg]
      · exact h6
      · rintro rfl
        exact hne (hsub _ h6)

theorem Streams.openedInvocation (hσ : Streams σ) (hopen : σ'.openStreams = σ.openStreams.set r ⟨.invocation, n⟩)
    (hlist : σ'.listSubs = σ.listSubs) (hn : σ'.str.get n = some p) (hother : Others σ σ' r n)
    (hrid : ∀ k, σ.openStreams.get r ≠ some ⟨.list, k⟩) : Streams σ' := by
  obtain ⟨h1, h2⟩ := hσ.opened_live hopen hn hother
  refine ⟨h1, h2, fun q k' r' => ?_⟩
  rw [hlist, hopen, AssocMap.get_set]
  constructor
  · intro h
    obtain ⟨h3, h4⟩ := (hσ.subs q k' r').mp h
    have hne : r' ≠ r := by
      rintro rfl
      exact hrid k' h3
    have h5 := (hother r' _ hne h3).2
    rw [if_neg hne]
    exact ⟨h3, h5.trans h4⟩
  · rintro ⟨h3, h4⟩
    split at h3
    · cases h3
    · rename_i hne
      have h5 := (hother r' _ hne h3).2
      exact (hσ.subs q k' r').mpr ⟨h3, h5.symm.trans h4⟩

/-! ## The maps -/

/-- A stream that takes a rid frees the path of the invocation that had it. -/
theorem setStream_cases (h : σ.setStream r stream = some τ) :
    ∃ g, τ = { σ with str := g, openStreams := σ.openStreams.set r stream } ∧
      ∀ k, (∀ old, σ.openStreams.get r = some old → k ≠ old.path) → g.get k = σ.str.get k := by
  unfold State.setStream at h
  obtain ⟨υ, hυ, h⟩ := Option.bind_eq_some_iff.mp h
  cases h
  cases hold : σ.openStreams.get r with
  | none =>
    rw [hold] at hυ
    cases hυ
    exact ⟨σ.str, rfl, fun _ _ => rfl⟩
  | some old =>
    rw [hold, Option.elim_some] at hυ
    unfold State.freeStream at hυ
    cases ht : old.type with
    | list =>
      rw [ht] at hυ
      cases hυ
      exact ⟨σ.str, rfl, fun _ _ => rfl⟩
    | invocation =>
      rw [ht] at hυ
      obtain ⟨_, -, rfl⟩ := Option.map_eq_some_iff.mp hυ
      exact ⟨_, rfl, fun k hk => Heap.get_free_ne (hk old rfl)⟩

/-- A path that is listed again frees the string of the key it had. -/
theorem setListSub_cases (h : σ.setListSub p sub = some τ) :
    ∃ g, τ = { σ with str := g, listSubs := σ.listSubs.set p sub } ∧
      (∀ k, (∀ old, σ.listSubs.get p = some old → k ≠ old.key) → g.get k = σ.str.get k) ∧
      ∀ old, σ.listSubs.get p = some old → g.get old.key = none := by
  unfold State.setListSub at h
  obtain ⟨υ, hυ, h⟩ := Option.bind_eq_some_iff.mp h
  cases h
  cases hold : σ.listSubs.get p with
  | none =>
    rw [hold] at hυ
    cases hυ
    exact ⟨σ.str, rfl, fun _ _ => rfl, fun _ h => (by cases h)⟩
  | some old =>
    rw [hold, Option.elim_some] at hυ
    obtain ⟨_, -, rfl⟩ := Option.map_eq_some_iff.mp hυ
    refine ⟨_, rfl, fun k hk => Heap.get_free_ne (hk old rfl), ?_⟩
    rintro _ ⟨⟩
    exact Heap.get_free_self _ _

/-- The state after a stream is closed: its entry, its string and, for a list stream, its path are gone. -/
def State.withoutStream (σ : State) (r : Nat) (stream : Stream) (path : CString) : State :=
  { σ with
    str := σ.str.free stream.path
    openStreams := σ.openStreams.erase r
    listSubs := if stream.type = .list then σ.listSubs.erase path else σ.listSubs }

theorem Streams.withoutStream (hσ : Streams σ) (hr : σ.openStreams.get r = some stream)
    (hk : σ.str.get stream.path = some p) : Streams (σ.withoutStream r stream p) := by
  apply hσ.closed hr hk rfl
  · intro q
    show (if stream.type = .list then σ.listSubs.erase p else σ.listSubs).get q = _
    by_cases hl : stream.type = .list
    · rw [if_pos hl, AssocMap.get_erase]
      by_cases hq : q = p
      · rw [if_pos hq, if_pos ⟨hl, hq⟩]
      · rw [if_neg hq, if_neg (fun h => hq h.2)]
    · rw [if_neg hl, if_neg (fun h => hl h.1)]
  · exact fun k hne => Heap.get_free_ne hne

/-! ## Requests -/

/-- A close request is carried out. -/
theorem requestClose_spec (hσ : Streams σ) (rid : Option Json) :
    ∃ σ', σ.requestClose rid = some σ' ∧ Streams σ' ∧ ∀ r stream, r ≠ u32 rid → σ.openStreams.get r = some stream →
      σ'.openStreams.get r = some stream ∧ σ'.str.get stream.path = σ.str.get stream.path := by
  cases hr : σ.openStreams.get (u32 rid) with
  | none =>
    refine ⟨σ, ?_, hσ, fun _ _ _ h => ⟨h, rfl⟩⟩
    unfold State.requestClose
    rw [hr]
    rfl
  | some stream =>
    obtain ⟨p, hp⟩ := hσ.live _ _ hr
    refine ⟨σ.withoutStream (u32 rid) stream p, ?_, hσ.withoutStream hr hp, fun r' stream' hne h => ⟨?_, ?_⟩⟩
    · unfold State.requestClose
      rw [hr]
      simp only [Option.elim_some, hp, Option.bind_eq_bind, Option.bind_some]
      unfold State.closeListSub State.withoutStream
      obtain ⟨type, k⟩ := stream
      cases type with
      | list =>
        have hsub := (hσ.subs p k (u32 rid)).mpr ⟨hr, hp⟩
        have hp : σ.str.get k = some p := hp
        rw [if_pos rfl, if_pos rfl]
        simp only [State.removeListSub, hsub, Option.elim_some, State.freeKey, hp, Option.map_some, Option.bind_some,
          State.freeStream]
      | invocation =>
        have hp : σ.str.get k = some p := hp
        rw [if_neg (by rintro ⟨⟩), if_neg (by rintro ⟨⟩)]
        simp only [Option.bind_some, State.freeStream, hp, Option.map_some]
    · show (σ.openStreams.erase (u32 rid)).get r' = _
      rw [AssocMap.get_erase_ne hne, h]
    · apply Heap.get_free_ne
      intro he
      exact hne (hσ.apart r' (u32 rid) stream' stream h hr he)

theorem responseList_cases {rid : Option Json} {node : Node} (hσ : Streams σ) (h : σ.responseList rid node = some σ') :
    σ'.openStreams = σ.openStreams.set (u32 rid) ⟨.list, σ.str.next⟩ ∧
    σ'.listSubs = σ.listSubs.set node.data.path ⟨σ.str.next, u32 rid⟩ ∧
    σ'.str.get σ.str.next = some node.data.path ∧
    (∀ k q, σ.str.get k = some q → (∀ old, σ.openStreams.get (u32 rid) = some old → k ≠ old.path) →
      (∀ old, σ.listSubs.get node.data.path = some old → k ≠ old.key) → σ'.str.get k = some q) ∧
    ∀ old, σ.listSubs.get node.data.path = some old → σ'.str.get old.key = none := by
  simp only [State.responseList, Option.bind_eq_bind, Option.bind_eq_some_iff] at h
  obtain ⟨τ, hτ, υ, hυ, h⟩ := h
  cases h
  obtain ⟨g, rfl, hg⟩ := setStream_cases hτ
  obtain ⟨g', rfl, hg', hgone⟩ := setListSub_cases hυ
  refine ⟨rfl, rfl, ?_, fun k q hk h1 h2 => ?_, hgone⟩
  · show g'.get σ.str.next = _
    rw [hg', hg]
    · exact Heap.get_alloc_next _ _
    · intro old hold
      obtain ⟨q, hq⟩ := hσ.live _ old hold
      exact (Heap.ne_next_of_get hq).symm
    · intro old hold
      have hq := ((hσ.subs _ old.key old.rid).mp hold).2
      exact (Heap.ne_next_of_get hq).symm
  · show g'.get k = _
    rw [hg' k h2, hg k h1]
    exact Heap.get_alloc_of_get hk

theorem responseList_streams {rid : Option Json} {node : Node} (hσ : Streams σ)
    (hsub : ∀ sub, σ.listSubs.get node.data.path = some sub → sub.rid = u32 rid)
    (hrid : ∀ k, σ.openStreams.get (u32 rid) = some ⟨.list, k⟩ → σ.str.get k = some node.data.path)
    (h : σ.responseList rid node = some σ') : Streams σ' := by
  obtain ⟨hopen, hlist, hn, hkeep, -⟩ := responseList_cases hσ h
  apply hσ.openedList hopen hlist hn ?_ hsub hrid
  intro r' stream' hne hs
  obtain ⟨q, hq⟩ := hσ.live r' stream' hs
  refine ⟨Heap.ne_next_of_get hq, ?_⟩
  rw [hq]
  apply hkeep _ _ hq
  · exact fun old hold he => hne (hσ.apart _ _ _ _ hs hold he)
  · intro old hold he
    have h1 := ((hσ.subs _ old.key old.rid).mp hold).1
    exact hne ((hσ.apart _ _ _ _ hs h1 he).trans (hsub old hold))

/-- Another rid of the path loses its string, another path of the rid its stream. -/
theorem responseList_unlisted {rid : Option Json} {node : Node} (hσ : Streams σ)
    (h : σ.responseList rid node = some σ') (hlisted : Listed σ') :
    (∀ sub, σ.listSubs.get node.data.path = some sub → sub.rid = u32 rid) ∧
    ∀ k, σ.openStreams.get (u32 rid) = some ⟨.list, k⟩ → σ.str.get k = some node.data.path := by
  obtain ⟨hopen, hlist, hn, -, hgone⟩ := responseList_cases hσ h
  constructor
  · intro sub hsub
    by_contra hne
    obtain ⟨h1, -⟩ := (hσ.subs _ sub.key sub.rid).mp hsub
    obtain ⟨p, hp⟩ := hlisted.2 sub.rid ⟨.list, sub.key⟩ (by rw [hopen, AssocMap.get_set_ne hne, h1]) rfl
    rw [hgone sub hsub] at hp
    cases hp
  · intro k hk
    obtain ⟨q, hq⟩ := hσ.live _ _ hk
    by_contra hne
    have hqp : q ≠ node.data.path := by
      rintro rfl
      exact hne hq
    have h1 := (hσ.subs q k (u32 rid)).mpr ⟨hk, hq⟩
    obtain ⟨stream, hs, -, hpath⟩ := hlisted.1 q ⟨k, u32 rid⟩ (by rw [hlist, AssocMap.get_set_ne hqp, h1])
    rw [hopen, AssocMap.get_set_self] at hs
    cases hs
    rw [hn] at hpath
    exact hqp (Option.some.inj hpath).symm

theorem invoke_cases {rid : Nat} {path : CString}
    (h : State.setStream { σ with str := σ.str.alloc path } rid ⟨.invocation, σ.str.next⟩ = some σ') :
    σ'.openStreams = σ.openStreams.set rid ⟨.invocation, σ.str.next⟩ ∧ σ'.listSubs = σ.listSubs ∧
    ∀ k, (∀ old, σ.openStreams.get rid = some old → k ≠ old.path) → σ'.str.get k = (σ.str.alloc path).get k := by
  obtain ⟨g, rfl, hg⟩ := setStream_cases h
  exact ⟨rfl, rfl, hg⟩

theorem invoke_streams {rid : Nat} {path : CString} (hσ : Streams σ)
    (hrid : ∀ k, σ.openStreams.get rid ≠ some ⟨.list, k⟩)
    (h : State.setStream { σ with str := σ.str.alloc path } rid ⟨.invocation, σ.str.next⟩ = some σ') : Streams σ' := by
  obtain ⟨hopen, hlist, hkeep⟩ := invoke_cases h
  apply hσ.openedInvocation (p := path) hopen hlist ?_ ?_ hrid
  · rw [hkeep]
    · exact Heap.get_alloc_next _ _
    · intro old hold
      obtain ⟨q, hq⟩ := hσ.live _ old hold
      exact (Heap.ne_next_of_get hq).symm
  · intro r' stream' hne hs
    obtain ⟨q, hq⟩ := hσ.live r' stream' hs
    refine ⟨Heap.ne_next_of_get hq, ?_⟩
    rw [hkeep]
    · exact (Heap.get_alloc_of_get hq).trans hq.symm
    · exact fun old hold he => hne (hσ.apart _ _ _ _ hs hold he)

/-- An invocation that takes the rid of a list stream. -/
theorem invoke_unlisted {rid : Nat} {path : CString} (hσ : Streams σ) (hlisted : Listed σ')
    (h : State.setStream { σ with str := σ.str.alloc path } rid ⟨.invocation, σ.str.next⟩ = some σ') (k : Nat) :
    σ.openStreams.get rid ≠ some ⟨.list, k⟩ := by
  intro hk
  obtain ⟨hopen, hlist, -⟩ := invoke_cases h
  obtain ⟨q, hq⟩ := hσ.live _ _ hk
  have h1 := (hσ.subs q k rid).mpr ⟨hk, hq⟩
  obtain ⟨stream, hs, htype, -⟩ := hlisted.1 q ⟨k, rid⟩ (by rw [hlist, h1])
  rw [hopen, AssocMap.get_set_self] at hs
  cases hs
  cases htype

/-! ## What is about values -/

theorem decrefPath_rest {ref : Nat} (h : σ.decrefPath ref = some σ') :
    σ'.streams = σ.streams ∧ σ'.sent = σ.sent := by
  obtain ⟨_, -, rfl⟩ := Option.map_eq_some_iff.mp h
  exact ⟨rfl, rfl⟩

theorem removePathSub_rest (h : σ.removePathSub p = some σ') : σ'.streams = σ.streams ∧ σ'.sent = σ.sent := by
  unfold State.removePathSub at h
  cases hsub : σ.valuePathSubs.get p with
  | none =>
    rw [hsub] at h
    cases h
    exact ⟨rfl, rfl⟩
  | some sub =>
    rw [hsub, Option.elim_some] at h
    have h1 := decrefPath_rest h
    exact h1

theorem removeSidSub_rest {sid : Nat} (h : σ.removeSidSub sid = some σ') :
    σ'.streams = σ.streams ∧ σ'.sent = σ.sent := by
  unfold State.removeSidSub at h
  cases hsub : σ.valueSidSubs.get sid with
  | none =>
    rw [hsub] at h
    cases h
    exact ⟨rfl, rfl⟩
  | some ref =>
    rw [hsub, Option.elim_some] at h
    have h1 := decrefPath_rest h
    exact h1

theorem subscribe_rest {sid : Nat} (h : σ.subscribe p sid = some σ') : σ'.streams = σ.streams := by
  simp only [State.subscribe, State.setPathSub, State.setSidSub, Option.bind_eq_bind, Option.bind_eq_some_iff] at h
  obtain ⟨υ, ⟨τ, hτ, h1⟩, φ, hφ, h2⟩ := h
  cases h1
  cases h2
  have hs1 : τ.streams = σ.streams := by
    cases hold : σ.valuePathSubs.get p with
    | none =>
      rw [hold] at hτ
      cases hτ
      rfl
    | some old =>
      rw [hold, Option.elim_some] at hτ
      have h1 := (decrefPath_rest hτ).1
      exact h1
  have hs2 : φ.streams = τ.streams := by
    cases hold : τ.valueSidSubs.get sid with
    | none =>
      simp only [hold, Option.elim_none] at hφ
      cases hφ
      rfl
    | some old =>
      simp only [hold, Option.elim_some] at hφ
      have h1 := (decrefPath_rest hφ).1
      exact h1
  exact hs2.trans hs1

theorem subRound_streams {item : CString × Nat} (h : σ.subRound item = some σ') : σ'.streams = σ.streams := by
  obtain ⟨τ, hτ, rfl⟩ := Option.map_eq_some_iff.mp h
  rw [← subscribe_rest hτ]
  cases τ.superRoot.getNode item.1 with
  | none => rfl
  | some node => exact streams_of_tables (sendVal_tables τ node.data item.2)

theorem unsubRound_streams {value : Json} (h : σ.unsubRound value = some σ') : σ'.streams = σ.streams := by
  unfold State.unsubRound at h
  cases hs : σ.valueSidSubs.get (u32 (some value)) with
  | none =>
    rw [hs] at h
    cases h
    rfl
  | some ref =>
    rw [hs] at h
    simp only [Option.elim_some, Option.bind_eq_bind, Option.bind_eq_some_iff] at h
    obtain ⟨τ, hτ, q, -, h⟩ := h
    have h1 := (decrefPath_rest hτ).1
    exact (removePathSub_rest h).1.trans h1

theorem foldlM_streams {α : Type} {f : State → α → Option State} {l : List α}
    (hf : ∀ σ a σ', f σ a = some σ' → σ'.streams = σ.streams) (h : l.foldlM f σ = some σ') : σ'.streams = σ.streams :=
  foldlM_invariant (fun τ => τ.streams = σ.streams) (fun _ a _ _ hi hs => (hf _ a _ hs).trans hi) h rfl

/-! ## Nodes that go -/

/-- A list stream goes with its node. -/
theorem dropPath_streams (hσ : Streams σ) (h : σ.dropPath p = some σ') : Streams σ' ∧ σ'.sent = σ.sent := by
  simp only [State.dropPath, Option.bind_eq_bind, Option.bind_eq_some_iff] at h
  obtain ⟨τ, hτ, sids, -, υ, hυ, h⟩ := h
  obtain ⟨h1, h2⟩ := removePathSub_rest hτ
  have h3 : υ.streams = τ.streams ∧ υ.sent = τ.sent := by
    cases hl : sids.getLast? with
    | none =>
      rw [hl] at hυ
      cases hυ
      exact ⟨rfl, rfl⟩
    | some sid =>
      rw [hl] at hυ
      exact removeSidSub_rest hυ
  have hυs : Streams υ := hσ.congr (h3.1.trans h1)
  have hsent : υ.sent = σ.sent := h3.2.trans h2
  cases hsub : υ.listSubs.get p with
  | none =>
    rw [hsub] at h
    cases h
    exact ⟨hυs, hsent⟩
  | some sub =>
    obtain ⟨k, r⟩ := sub
    obtain ⟨hr, hk⟩ := (hυs.subs p k r).mp hsub
    have heq : σ' = υ.withoutStream r ⟨.list, k⟩ p := by
      simp only [hsub, Option.elim_some, State.removeListSub, State.freeKey, hk, Option.map_some, Option.bind_some,
        State.removeStream, hr, State.freeStream, Option.some.injEq] at h
      exact h.symm
    rw [heq]
    exact ⟨hυs.withoutStream hr hk, hsent⟩

theorem dropPaths_streams {ps : List CString} (hσ : Streams σ) (h : ps.foldlM State.dropPath σ = some σ') :
    Streams σ' ∧ σ'.sent = σ.sent := by
  apply foldlM_invariant (fun τ => Streams τ ∧ τ.sent = σ.sent) ?_ h ⟨hσ, rfl⟩
  rintro τ q - τ' ⟨h1, h2⟩ hs
  obtain ⟨h3, h4⟩ := dropPath_streams h1 hs
  exact ⟨h3, h4.trans h2⟩

end

/-! ## Runs -/

/-- A list request comes while its path is listed under no other rid, and it takes the rid of no list stream of
    another path; an invocation that stays open takes the rid of no list stream. -/
def Request.fits (σ : State) (kept : Bool) : Request → Bool
  | .list path rid => (path.bind σ.superRoot.getNode).all (fun node =>
      (σ.listSubs.get node.data.path).all (fun sub => sub.rid == u32 rid) &&
      (σ.openStreams.get (u32 rid)).all (fun stream =>
        stream.type != .list || σ.str.get stream.path == some node.data.path))
  | .invoke path rid => (path.bind σ.superRoot.getNode).all (fun node =>
      !node.data.onInvocation || !kept || (σ.openStreams.get (u32 rid)).all (fun stream => stream.type != .list))
  | _ => true

def Event.fits (σ : State) : Event → Bool
  | .request req _ kept => (Request.ofJson req).all (fun req => req.fits σ kept)
  | _ => true

/-- Whom an event concerns who lists nodes: the path and the row. -/
def Event.update (σ : State) : Event → Option (CString × Json)
  | .addNode parent name profile onInvocation onValueSet =>
    (σ.superRoot.find parent).map (fun p => (p.data.path,
      childRow ⟨childPath p.data.path name, name, profile, none, none, none, onInvocation, onValueSet⟩))
  | .removeNode parent name => (σ.superRoot.find parent).bind (fun p =>
      (p.child name).map (fun node => (p.data.path, removeRow node.data.name)))
  | .setMeta names name value => (σ.superRoot.find names).bind (fun node =>
      if node.data.metaData.isNone && value.isNone then none else some (node.data.path, metaRow name value))
  | _ => none

/-- Every list stream gets each row that is for its path, and gets it once. -/
def Flows (σ : State) : Prop :=
  ∀ r stream p, σ.openStreams.get r = some stream → stream.type = .list → σ.str.get stream.path = some p →
    ∀ e row σ', e.update σ = some (p, row) → step σ e = some σ' →
      σ'.sent = σ.sent ++ [.stream (some (.integer r)) [row]]

section

variable {σ σ' : State} {e : Event} {p : CString}

theorem Streams.flows (hσ : Streams σ) : Flows σ := by
  intro r stream p hr hl hp e row σ' hrow h
  obtain ⟨type, k⟩ := stream
  obtain rfl : type = .list := hl
  have hsub : σ.listSubs.get p = some ⟨k, r⟩ := (hσ.subs p k r).mpr ⟨hr, hp⟩
  have hsent : ∀ root, (State.sendListed { σ with superRoot := root } p row).sent
      = σ.sent ++ [.stream (some (.integer r)) [row]] := by
    intro root
    unfold State.sendListed
    simp only [hsub, Option.elim_some]
    rfl
  cases e with
  | request req ts kept => cases hrow
  | addNode parent name profile b b' =>
    simp only [Event.update, Option.map_eq_some_iff, Prod.mk.injEq] at hrow
    obtain ⟨q, hq, rfl, rfl⟩ := hrow
    simp only [step, State.nodeAddChild, hq, Option.bind_eq_bind, Option.bind_some] at h
    split at h
    · cases h
    · cases h
      exact hsent _
  | removeNode parent name =>
    simp only [Event.update, Option.bind_eq_some_iff, Option.map_eq_some_iff, Prod.mk.injEq] at hrow
    obtain ⟨q, hq, node, hnode, rfl, rfl⟩ := hrow
    simp only [step, State.nodeRemove, hq, hnode, Option.bind_eq_bind, Option.bind_some] at h
    have hstreams : ∀ root, (State.sendListed { σ with superRoot := root } q.data.path (removeRow node.data.name)).streams
        = σ.streams := by
      intro root
      rw [streams_of_tables (sendListed_tables _ _ _)]
      rfl
    obtain ⟨-, h1⟩ := dropPaths_streams (hσ.congr (hstreams _)) h
    exact h1.trans (hsent _)
  | setMeta names name value =>
    simp only [Event.update, Option.bind_eq_some_iff] at hrow
    obtain ⟨node, hnode, hrow⟩ := hrow
    simp only [step, State.nodeSetMeta, hnode, Option.bind_eq_bind, Option.bind_some] at h
    split at hrow
    · cases hrow
    · rename_i hc
      cases hrow
      rw [if_neg hc] at h
      cases h
      exact hsent _
  | updateValue names value ts => cases hrow

/-- A request that fits keeps the streams in order, one that does not brings them out of it. -/
theorem requestHandle_streams {ts : CString} {kept : Bool} {req : Request} (hσ : Streams σ)
    (h : σ.requestHandle ts kept req = some σ') :
    (req.fits σ kept = true → Streams σ') ∧ (Listed σ' → req.fits σ kept = true) := by
  have hsame : σ'.streams = σ.streams → req.fits σ kept = true →
      (req.fits σ kept = true → Streams σ') ∧ (Listed σ' → req.fits σ kept = true) :=
    fun h1 h2 => ⟨fun _ => hσ.congr h1, fun _ => h2⟩
  cases req with
  | list path rid =>
    obtain ⟨q, rfl, hq⟩ := Option.bind_eq_some_iff.mp h
    cases hn : σ.superRoot.getNode q with
    | none =>
      rw [hn] at hq
      cases hq
      apply hsame rfl
      simp only [Request.fits, Option.bind_some, hn, Option.all_none]
    | some node =>
      rw [hn, Option.elim_some] at hq
      have hfits : (Request.list (some q) rid).fits σ kept = true ↔
          (∀ sub, σ.listSubs.get node.data.path = some sub → sub.rid = u32 rid) ∧
          ∀ k, σ.openStreams.get (u32 rid) = some ⟨.list, k⟩ → σ.str.get k = some node.data.path := by
        simp only [Request.fits, Option.bind_some, hn, Option.all_some, Bool.and_eq_true, Option.all_eq_true,
          beq_iff_eq, Bool.or_eq_true, bne_iff_ne]
        apply and_congr Iff.rfl
        constructor
        · intro h1 k hk
          exact (h1 _ hk).resolve_left (fun hne => hne rfl)
        · rintro h1 ⟨type, k⟩ hk
          cases type with
          | list => exact .inr (h1 k hk)
          | invocation => exact .inl (by rintro ⟨⟩)
      rw [hfits]
      exact ⟨fun h1 => responseList_streams hσ h1.1 h1.2 hq, responseList_unlisted hσ hq⟩
  | subscribe paths rid =>
    apply hsame _ rfl
    exact (foldlM_streams (fun _ _ _ hs => subRound_streams hs) h).trans rfl
  | unsubscribe sids rid =>
    apply hsame _ rfl
    obtain ⟨τ, hτ, rfl⟩ := Option.map_eq_some_iff.mp h
    show τ.streams = σ.streams
    apply foldlM_streams ?_ hτ
    exact fun _ _ _ hs => unsubRound_streams hs
  | invoke path rid =>
    obtain ⟨q, rfl, hq⟩ := Option.bind_eq_some_iff.mp h
    unfold State.requestInvoke at hq
    cases hn : σ.superRoot.getNode q with
    | none =>
      rw [hn] at hq
      cases hq
      apply hsame rfl
      simp only [Request.fits, Option.bind_some, hn, Option.all_none]
    | some node =>
      rw [hn] at hq
      dsimp only at hq
      cases hcb : node.data.onInvocation with
      | false =>
        rw [if_neg (by simp [hcb])] at hq
        cases hq
        apply hsame rfl
        simp [Request.fits, hn, hcb]
      | true =>
        rw [if_pos hcb] at hq
        cases kept with
        | false =>
          -- the stream and its string are freed at once
          rw [if_neg (by simp)] at hq
          have hfree : σ' = { σ with str := (σ.str.alloc node.data.path).free σ.str.next } := by
            simp only [State.freeStream, Heap.get_alloc_next, Option.map_some, Option.some.injEq] at hq
            exact hq.symm
          have hget : ∀ k, (((σ.str.alloc node.data.path).free σ.str.next).get k) = σ.str.get k := by
            intro k
            by_cases hk : k = σ.str.next
            · rw [hk, Heap.get_free_self, Heap.get_next]
            · rw [Heap.get_free_ne hk, Heap.get_alloc, if_neg hk]
          constructor
          · intro _
            rw [hfree]
            constructor
            · intro r stream hr
              exact (hσ.live r stream hr).imp (fun p hp => (hget _).trans hp)
            · exact hσ.apart
            · intro p k r
              show _ ↔ _ ∧ ((σ.str.alloc node.data.path).free σ.str.next).get k = some p
              rw [hget]
              exact hσ.subs p k r
          · intro _
            simp [Request.fits, hn]
        | true =>
          rw [if_pos rfl] at hq
          have hfits : (Request.invoke (some q) rid).fits σ true = true ↔
              ∀ k, σ.openStreams.get (u32 rid) ≠ some ⟨.list, k⟩ := by
            simp only [Request.fits, Option.bind_some, hn, Option.all_some, hcb, Bool.not_true, Bool.false_or,
              Option.all_eq_true, bne_iff_ne]
            constructor
            · intro h1 k hk
              exact h1 _ hk rfl
            · rintro h1 ⟨type, k⟩ hk rfl
              exact h1 k hk
          rw [hfits]
          exact ⟨fun h1 => invoke_streams hσ h1 hq, fun h1 => invoke_unlisted hσ h1 hq⟩
  | set path value =>
    obtain ⟨q, rfl, hq⟩ := Option.bind_eq_some_iff.mp h
    exact hsame (streams_of_tables (requestSet_tables hq)) rfl
  | close rid =>
    obtain ⟨τ, hτ, h1, -⟩ := requestClose_spec hσ rid
    cases h.symm.trans hτ
    exact ⟨fun _ => h1, fun _ => rfl⟩

theorem step_streams (hσ : Streams σ) (h : step σ e = some σ') :
    (e.fits σ = true → Streams σ') ∧ (Listed σ' → e.fits σ = true) := by
  have hsame : σ'.streams = σ.streams → e.fits σ = true →
      (e.fits σ = true → Streams σ') ∧ (Listed σ' → e.fits σ = true) :=
    fun h1 h2 => ⟨fun _ => hσ.congr h1, fun _ => h2⟩
  cases e with
  | request req ts kept =>
    simp only [step] at h
    simp only [Event.fits]
    cases hreq : Request.ofJson req with
    | none =>
      rw [hreq] at h
      cases h
      exact ⟨fun _ => hσ, fun _ => rfl⟩
    | some r =>
      rw [hreq, Option.elim_some] at h
      rw [Option.all_some]
      exact requestHandle_streams hσ h
  | addNode parent name profile b b' => exact hsame (streams_of_tables (nodeAddChild_tables h)) rfl
  | removeNode parent name =>
    simp only [step, State.nodeRemove, Option.bind_eq_bind, Option.bind_eq_some_iff] at h
    obtain ⟨q, -, node, -, h⟩ := h
    refine ⟨fun _ => ?_, fun _ => rfl⟩
    apply (dropPaths_streams (hσ.congr ?_) h).1
    rw [streams_of_tables (sendListed_tables _ _ _)]
    rfl
  | setMeta names name value => exact hsame (streams_of_tables (nodeSetMeta_tables h)) rfl
  | updateValue names value ts => exact hsame (streams_of_tables (nodeUpdateValue_tables h)) rfl

end

/-- In every run in which no path is listed under a second rid and no list stream's rid is taken by something else,
    `list_subs` and the open list streams agree, every list stream has its path, and list updates flow to it. From
    such a state an event keeps this if and only if it meets the condition, and a close request is carried out and
    leaves the other streams and the updates for them as they are. -/
theorem list_streams_kept {σ : State} (h : Reach step (fun σ e => e.fits σ = true) (· = init) σ) :
    (Listed σ ∧ Flows σ) ∧
    (∀ e σ', step σ e = some σ' → (Listed σ' ↔ e.fits σ = true)) ∧
    ∀ rid, ∃ σ', σ.requestClose rid = some σ' ∧ Flows σ' ∧
      ∀ r stream, r ≠ u32 rid → σ.openStreams.get r = some stream →
        σ'.openStreams.get r = some stream ∧ σ'.str.get stream.path = σ.str.get stream.path := by
  have hσ : Streams σ := by
    apply h.invariant Streams
    · rintro _ rfl
      refine ⟨fun _ _ h => (by cases h), fun _ _ _ _ h => (by cases h), fun p k r => ?_⟩
      constructor
      · intro h
        cases h
      · rintro ⟨h, -⟩
        cases h
    · exact fun _ _ _ hi hok hs => (step_streams hi hs).1 hok
  refine ⟨⟨hσ.listed, hσ.flows⟩, fun e σ' hs => ⟨(step_streams hσ hs).2, fun hok => ((step_streams hσ hs).1 hok).listed⟩,
    fun rid => ?_⟩
  obtain ⟨σ', hσ', h1, h2⟩ := requestClose_spec hσ rid
  exact ⟨σ', hσ', h1.flows, h2⟩

/-- A list request. -/
def listRequest (path : CString) (rid : Nat) : Event :=
  .request (.object [(cstr "rid", .integer rid), (cstr "method", .string (cstr "list")), (cstr "path", .string path)]) []
    false

/-- A close request. -/
def closeRequest (rid : Nat) : Event :=
  .request (.object [(cstr "rid", .integer rid), (cstr "method", .string (cstr "close"))]) [] false

/-- Two paths are listed and one of the two is closed; then the other one gets a child. -/
theorem list_streams_kept_two :
    ∃ σ σ', Reach step (fun σ e => e.fits σ = true) (· = init) σ ∧
      step σ (.addNode [cstr "b"] (cstr "c") (cstr "node") false false) = some σ' ∧
      σ'.sent = σ.sent ++ [.stream (some (.integer 2))
        [childRow ⟨cstr "/b/c", cstr "c", cstr "node", none, none, none, false, false⟩]] := by
  obtain ⟨σ, hr, hc⟩ := Reach.of_guarded step (fun σ e => e.fits σ = true) (some init)
    [.addNode [] (cstr "a") (cstr "node") false false, .addNode [] (cstr "b") (cstr "node") false false,
      listRequest (cstr "/a") 1, listRequest (cstr "/b") 2, closeRequest 1]
    (fun σ => (σ.openStreams.get 2).any (fun stream => stream.type == .list && σ.str.get stream.path == some (cstr "/b")) &&
      (σ.superRoot.find [cstr "b"]).any (fun node => node.data.path == cstr "/b") &&
      (step σ (.addNode [cstr "b"] (cstr "c") (cstr "node") false false)).isSome) (by decide)
  have hr' : Reach step (fun σ e => e.fits σ = true) (· = init) σ := hr.of_init (fun s hs => (Option.some.inj hs).symm)
  rw [Bool.and_eq_true, Bool.and_eq_true, Option.any_eq_true, Option.any_eq_true, Option.isSome_iff_exists] at hc
  obtain ⟨⟨⟨stream, hst, hl⟩, node, hn, hpath⟩, σ', hσ'⟩ := hc
  rw [Bool.and_eq_true, beq_iff_eq, beq_iff_eq] at hl
  have hpath := beq_iff_eq.mp hpath
  have hrow : (Event.addNode [cstr "b"] (cstr "c") (cstr "node") false false).update σ = some (cstr "/b",
      childRow ⟨cstr "/b/c", cstr "c", cstr "node", none, none, none, false, false⟩) := by
    simp only [Event.update, hn, Option.map_some, hpath]
    rfl
  exact ⟨σ, σ', hr', hσ', (list_streams_kept hr').1.2 2 stream (cstr "/b") hst hl.1 hl.2 _ _ σ' hrow hσ'⟩

/-- A path is listed under a second rid: the path of the first stream is freed, and closing it reads the path. -/
theorem list_stream_listed_twice :
    ∃ σ, Reach step (fun _ _ => True) (· = init) σ ∧ ¬ Listed σ ∧ step σ (closeRequest 1) = none := by
  obtain ⟨σ, hr, hc⟩ := Reach.of_eval step (some init)
    [.addNode [] (cstr "a") (cstr "node") false false, listRequest (cstr "/a") 1, listRequest (cstr "/a") 2]
    (fun σ => (σ.openStreams.get 1).any (fun stream => stream.type == .list && (σ.str.get stream.path).isNone) &&
      (step σ (closeRequest 1)).isNone) (by decide)
  rw [Bool.and_eq_true, Option.any_eq_true, Option.isNone_iff_eq_none] at hc
  obtain ⟨⟨stream, hst, hl⟩, hfail⟩ := hc
  rw [Bool.and_eq_true, beq_iff_eq, Option.isNone_iff_eq_none] at hl
  refine ⟨σ, hr.of_init (fun s hs => (Option.some.inj hs).symm), fun hlisted => ?_, hfail⟩
  obtain ⟨p, hp⟩ := hlisted.2 1 stream hst hl.1
  rw [hl.2] at hp
  cases hp

end DSLink.Responder
