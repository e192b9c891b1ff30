import DSLink.Broker.Calls

/-!
# `Broker.Index` — the two indexes of the SubRequesters of a requester

`Indexes` is what `req_sub_paths` and `req_sub_sids` are about: the path, the requester and the sid of every
live SubRequester, and the two maps of every requester. `PathsOk` says that the first map has exactly the live
SubRequesters under their paths, `SidsOk` that the second one has only live SubRequesters under their sids, and
each that has a sid of its own.

## Contents
- `Indexes` with its three changes `insert`, `remove` and `rekey`, and what they keep.
- `Broker.indexes` and what each call does to it.
- `IndexInv` over all handlers, and the run theorem for both directions.
-/

namespace DSLink

variable {J : Type} {cfg : Config} {σ σ' : Broker J}

/-- What the indexes know of a SubRequester. -/
structure SubKey where
  path : CString
  reqNode : DownId
  reqSid : Nat

/-- `req_sub_paths` and `req_sub_sids` of one node. -/
structure NodeIndex where
  paths : AssocMap CString SubId
  sids : AssocMap Nat SubId

/-- All live SubRequesters and the maps of all nodes. -/
structure Indexes where
  sub : SubId → Option SubKey
  node : DownId → Option NodeIndex

namespace Indexes

/-- Replace the key of `s`. -/
def setSub (I : Indexes) (s : SubId) (k : Option SubKey) : Indexes :=
  { I with sub := fun t => if t = s then k else I.sub t }

/-- Rewrite the maps of `d`. -/
def modNode (I : Indexes) (d : DownId) (f : NodeIndex → NodeIndex) : Indexes :=
  { I with node := fun e => if e = d then (I.node d).map f else I.node e }

/-- A new SubRequester with its two entries. -/
def insert (I : Indexes) (s : SubId) (k : SubKey) : Indexes :=
  (I.setSub s (some k)).modNode k.reqNode (fun n => ⟨n.paths.set k.path s, n.sids.set k.reqSid s⟩)

/-- A freed SubRequester: an entry under the placeholder sid stays. -/
def remove (I : Indexes) (s : SubId) (k : SubKey) : Indexes :=
  (I.modNode k.reqNode (fun n =>
    ⟨n.paths.erase k.path, if k.reqSid ≠ noSid then n.sids.erase k.reqSid else n.sids⟩)).setSub s none

/-- Another sid for a SubRequester. -/
def rekey (I : Indexes) (s : SubId) (k : SubKey) (sid : Nat) : Indexes :=
  (I.setSub s (some { k with reqSid := sid })).modNode k.reqNode (fun n =>
    ⟨n.paths, (n.sids.erase k.reqSid).set sid s⟩)

/-- The path index has exactly the live SubRequesters, under their paths. -/
structure PathsOk (I : Indexes) : Prop where
  live : ∀ d n p s, I.node d = some n → n.paths.get p = some s →
    ∃ k, I.sub s = some k ∧ k.path = p ∧ k.reqNode = d
  indexed : ∀ s k, I.sub s = some k → ∃ n, I.node k.reqNode = some n ∧ n.paths.get k.path = some s

/-- The sid index of `d` has live SubRequesters of `d` under their sids, except for keys in `ex`, and it has
    each that has a sid of its own. -/
structure SidsOk (ex : Nat → Prop) (I : Indexes) (d : DownId) : Prop where
  live : ∀ n sid s, I.node d = some n → n.sids.get sid = some s → ¬ex sid →
    ∃ k, I.sub s = some k ∧ k.reqNode = d ∧ k.reqSid = sid
  indexed : ∀ n s k, I.node d = some n → I.sub s = some k → k.reqNode = d → k.reqSid ≠ noSid →
    n.sids.get k.reqSid = some s

/-- The SubRequesters whose node and path are in `R` are in the sid index. -/
def Found (R : DownId → CString → Prop) (I : Indexes) : Prop :=
  ∀ (d : DownId) (p : CString) (n : NodeIndex) (s : SubId), R d p → I.node d = some n → n.paths.get p = some s →
    ∃ k, I.sub s = some k ∧ n.sids.get k.reqSid = some s

variable {I : Indexes} {ex : Nat → Prop}

@[simp] theorem setSub_node (s : SubId) (k : Option SubKey) : (I.setSub s k).node = I.node := rfl
@[simp] theorem modNode_sub (d : DownId) (f : NodeIndex → NodeIndex) : (I.modNode d f).sub = I.sub := rfl

theorem setSub_sub (s : SubId) (k : Option SubKey) (t : SubId) :
    (I.setSub s k).sub t = if t = s then k else I.sub t := rfl

theorem modNode_node (d : DownId) (f : NodeIndex → NodeIndex) (e : DownId) :
    (I.modNode d f).node e = if e = d then (I.node d).map f else I.node e := rfl

/-- Two live SubRequesters of one requester have different paths. -/
theorem PathsOk.unique (h : I.PathsOk) {s t : SubId} {k l : SubKey} (hs : I.sub s = some k)
    (ht : I.sub t = some l) (hn : k.reqNode = l.reqNode) (hp : k.path = l.path) : s = t := by
  obtain ⟨n, hd, hg⟩ := h.indexed s k hs
  obtain ⟨n', hd', hg'⟩ := h.indexed t l ht
  rw [← hn, hd] at hd'
  cases hd'
  rw [hp, hg'] at hg
  exact (Option.some.inj hg).symm

/-! ### The path index -/

theorem PathsOk.insert (h : I.PathsOk) {s : SubId} {k : SubKey} {n : NodeIndex} (hs : I.sub s = none)
    (hd : I.node k.reqNode = some n) (hp : n.paths.get k.path = none) : (I.insert s k).PathsOk := by
  have hdead : ∀ d n p, I.node d = some n → n.paths.get p ≠ some s := by
    intro d n p hd hp
    obtain ⟨k', hk', -⟩ := h.live d n p s hd hp
    rw [hs] at hk'
    cases hk'
  constructor
  · intro d n' p t hn' ht
    simp only [Indexes.insert, modNode_node, setSub_node, modNode_sub, setSub_sub] at hn' ⊢
    by_cases hdk : d = k.reqNode
    · subst hdk
      simp only [if_true, hd, Option.map_some, Option.some.injEq] at hn'
      subst hn'
      simp only [AssocMap.get_set] at ht
      split at ht
      · rename_i hpk
        cases ht
        exact ⟨k, if_pos rfl, hpk.symm, rfl⟩
      · rw [if_neg (fun he => hdead _ _ _ hd (he ▸ ht))]
        exact h.live _ _ _ _ hd ht
    · rw [if_neg hdk] at hn'
      rw [if_neg (fun he => hdead _ _ _ hn' (he ▸ ht))]
      exact h.live _ _ _ _ hn' ht
  · intro t l ht
    simp only [Indexes.insert, modNode_node, setSub_node, modNode_sub, setSub_sub] at ht ⊢
    by_cases hts : t = s
    · subst hts
      rw [if_pos rfl] at ht
      cases ht
      simp [hd]
    · rw [if_neg hts] at ht
      obtain ⟨n', hn', hg⟩ := h.indexed t l ht
      by_cases hdk : l.reqNode = k.reqNode
      · rw [hdk, hd] at hn'
        cases hn'
        refine ⟨_, by rw [if_pos hdk, hd]; rfl, ?_⟩
        rw [AssocMap.get_set_ne (fun he => by rw [he, hp] at hg; cases hg)]
        exact hg
      · exact ⟨n', by rw [if_neg hdk]; exact hn', hg⟩

theorem PathsOk.remove (h : I.PathsOk) {s : SubId} {k : SubKey} (hs : I.sub s = some k) :
    (I.remove s k).PathsOk := by
  obtain ⟨n, hd, hp⟩ := h.indexed s k hs
  constructor
  · intro d n' p t hn' ht
    simp only [Indexes.remove, setSub_node, setSub_sub, modNode_node, modNode_sub] at hn' ⊢
    by_cases hdk : d = k.reqNode
    · subst hdk
      simp only [if_true, hd, Option.map_some, Option.some.injEq] at hn'
      subst hn'
      obtain ⟨hpk, ht⟩ := AssocMap.get_erase_eq_some.mp ht
      obtain ⟨l, hl, hlp, hln⟩ := h.live _ _ _ _ hd ht
      refine ⟨l, ?_, hlp, hln⟩
      rw [if_neg (fun he => hpk ?_)]
      · exact hl
      · rw [he, hs] at hl
        rw [← hlp, Option.some.inj hl]
    · rw [if_neg hdk] at hn'
      obtain ⟨l, hl, hlp, hln⟩ := h.live _ _ _ _ hn' ht
      refine ⟨l, ?_, hlp, hln⟩
      rw [if_neg (fun he => hdk ?_)]
      · exact hl
      · rw [he, hs] at hl
        rw [← hln, Option.some.inj hl]
  · intro t l ht
    simp only [Indexes.remove, setSub_node, setSub_sub, modNode_node, modNode_sub] at ht ⊢
    split at ht
    · cases ht
    · rename_i hts
      obtain ⟨n', hn', hg⟩ := h.indexed t l ht
      by_cases hdk : l.reqNode = k.reqNode
      · rw [hdk, hd] at hn'
        cases hn'
        refine ⟨_, by rw [if_pos hdk, hd]; rfl, AssocMap.get_erase_eq_some.mpr ⟨fun he => ?_, hg⟩⟩
        rw [he, hp] at hg
        exact hts (Option.some.inj hg).symm
      · exact ⟨n', by rw [if_neg hdk]; exact hn', hg⟩

/-- Changing sids alone keeps the path index. -/
theorem PathsOk.congr (h : I.PathsOk) {I' : Indexes}
    (hsub : ∀ s, (I'.sub s).map (fun k => (k.path, k.reqNode)) = (I.sub s).map (fun k => (k.path, k.reqNode)))
    (hnode : ∀ d, (I'.node d).map NodeIndex.paths = (I.node d).map NodeIndex.paths) : I'.PathsOk := by
  constructor
  · intro d n' p s hn' hp
    have h1 := hnode d
    rw [hn'] at h1
    obtain ⟨n, hn, hpaths⟩ := Option.map_eq_some_iff.mp h1.symm
    obtain ⟨k, hk, hkp, hkn⟩ := h.live d n p s hn (hpaths ▸ hp)
    have h2 := hsub s
    rw [hk] at h2
    obtain ⟨k', hk', he⟩ := Option.map_eq_some_iff.mp h2
    obtain ⟨he1, he2⟩ := Prod.mk.inj he
    exact ⟨k', hk', he1.trans hkp, he2.trans hkn⟩
  · intro s k' hk'
    have h2 := hsub s
    rw [hk'] at h2
    obtain ⟨k, hk, he⟩ := Option.map_eq_some_iff.mp h2.symm
    obtain ⟨he1, he2⟩ := Prod.mk.inj he
    obtain ⟨n, hn, hp⟩ := h.indexed s k hk
    have h1 := hnode k.reqNode
    rw [hn] at h1
    obtain ⟨n', hn', hpaths⟩ := Option.map_eq_some_iff.mp h1
    exact ⟨n', by rw [← he2]; exact hn', by rw [hpaths, ← he1]; exact hp⟩

theorem PathsOk.rekey (h : I.PathsOk) {s : SubId} {k : SubKey} {sid : Nat} (hs : I.sub s = some k) :
    (I.rekey s k sid).PathsOk := by
  refine h.congr (fun t => ?_) (fun d => ?_)
  · simp only [Indexes.rekey, modNode_sub, setSub_sub]
    split
    · rename_i he
      rw [he, hs]
      rfl
    · rfl
  · simp only [Indexes.rekey, modNode_node, setSub_node]
    split
    · rename_i he
      rw [he, Option.map_map]
      rfl
    · rfl

/-! ### The sid index -/

theorem SidsOk.mono {ex' : Nat → Prop} {d : DownId} (h : SidsOk ex I d) (hsub : ∀ x, ex x → ex' x) :
    SidsOk ex' I d :=
  ⟨fun n sid s hn hg hex => h.live n sid s hn hg (fun hx => hex (hsub sid hx)), h.indexed⟩

/-- Changes of the SubRequesters of other nodes. -/
theorem SidsOk.congr {d : DownId} (h : SidsOk ex I d) {I' : Indexes}
    (hsub : ∀ t k, k.reqNode = d → (I'.sub t = some k ↔ I.sub t = some k)) (hnode : I'.node d = I.node d) :
    SidsOk ex I' d := by
  constructor
  · intro n sid t hn hg hex
    obtain ⟨k, hk, hkn, hks⟩ := h.live n sid t (hnode ▸ hn) hg hex
    exact ⟨k, (hsub t k hkn).mpr hk, hkn, hks⟩
  · intro n t k hn hk hkn hks
    exact h.indexed n t k (hnode ▸ hn) ((hsub t k hkn).mp hk) hkn hks

/-- A change of one SubRequester of another node, and of that node's maps. -/
theorem SidsOk.other {d e : DownId} (h : SidsOk ex I d) (hde : d ≠ e) {I' : Indexes} {s : SubId}
    (hs : ∀ k, I.sub s = some k → k.reqNode = e) (hs' : ∀ k, I'.sub s = some k → k.reqNode = e)
    (hsub : ∀ t, t ≠ s → I'.sub t = I.sub t) (hnode : I'.node d = I.node d) : SidsOk ex I' d := by
  refine h.congr (fun t k hk => ?_) hnode
  by_cases ht : t = s
  · subst ht
    exact ⟨fun h' => absurd (hk.symm.trans (hs' k h')) hde, fun h' => absurd (hk.symm.trans (hs k h')) hde⟩
  · rw [hsub t ht]

theorem SidsOk.insert {d : DownId} {s : SubId} {k : SubKey} (h : SidsOk ex I d) (hs : I.sub s = none)
    (hsid : k.reqNode = d → ∀ n, I.node d = some n → k.reqSid ≠ noSid → n.sids.get k.reqSid = none)
    (hex : ∀ x, ex x → k.reqNode = d ∧ x = k.reqSid) : SidsOk (fun _ => False) (I.insert s k) d := by
  by_cases hdk : d = k.reqNode
  · subst hdk
    constructor
    · intro n' sid t hn' hg _
      simp only [Indexes.insert, modNode_node, setSub_node, if_true, Option.map_eq_some_iff] at hn'
      obtain ⟨n, hn, rfl⟩ := hn'
      simp only [AssocMap.get_set] at hg
      simp only [Indexes.insert, modNode_sub, setSub_sub]
      split at hg
      · cases hg
        exact ⟨k, if_pos rfl, rfl, Eq.symm ‹_›⟩
      · rename_i hne
        obtain ⟨l, hl, hln, hls⟩ := h.live n sid t hn hg (fun hx => hne (hex sid hx).2)
        refine ⟨l, ?_, hln, hls⟩
        rw [if_neg (fun he => by rw [he, hs] at hl; cases hl), hl]
    · intro n' t l hn' hl hln hls
      simp only [Indexes.insert, modNode_node, setSub_node, if_true, Option.map_eq_some_iff] at hn'
      obtain ⟨n, hn, rfl⟩ := hn'
      simp only [Indexes.insert, modNode_sub, setSub_sub] at hl
      split at hl
      · cases hl
        rename_i he
        simp [he]
      · have hg := h.indexed n t l hn hl hln hls
        rw [AssocMap.get_set_ne (fun he => ?_)]
        · exact hg
        · rw [he, hsid rfl n hn (he ▸ hls)] at hg
          cases hg
  · refine SidsOk.other (s := s) (e := k.reqNode) (h.mono (fun x hx => hdk (hex x hx).1.symm)) hdk ?_ ?_ ?_ ?_
    · intro k' hk'
      rw [hs] at hk'
      cases hk'
    · intro k' hk'
      simp only [Indexes.insert, modNode_sub, setSub_sub, if_true, Option.some.injEq] at hk'
      rw [hk']
    · intro t ht
      simp only [Indexes.insert, modNode_sub, setSub_sub, if_neg ht]
    · simp only [Indexes.insert, modNode_node, setSub_node, if_neg hdk]

theorem SidsOk.remove {d : DownId} {s : SubId} {k : SubKey} (h : SidsOk ex I d) (hs : I.sub s = some k) :
    SidsOk (fun x => ex x ∨ k.reqNode = d ∧ k.reqSid = noSid ∧ x = noSid) (I.remove s k) d := by
  by_cases hdk : d = k.reqNode
  · subst hdk
    constructor
    · intro n' sid t hn' hg hex
      simp only [Indexes.remove, setSub_node, modNode_node, if_true, Option.map_eq_some_iff] at hn'
      obtain ⟨n, hn, rfl⟩ := hn'
      simp only [Indexes.remove, setSub_sub, modNode_sub]
      have hold : n.sids.get sid = some t ∧ sid ≠ k.reqSid := by
        by_cases hks : k.reqSid = noSid
        · simp only [hks, ne_eq, not_true_eq_false, if_false] at hg
          exact ⟨hg, fun he => hex (Or.inr ⟨rfl, hks, he.trans hks⟩)⟩
        · simp only [ne_eq, hks, not_false_eq_true, if_true] at hg
          exact (AssocMap.get_erase_eq_some.mp hg).symm
      obtain ⟨l, hl, hln, hls⟩ := h.live n sid t hn hold.1 (fun hx => hex (Or.inl hx))
      refine ⟨l, ?_, hln, hls⟩
      rw [if_neg (fun he => hold.2 ?_), hl]
      rw [he, hs] at hl
      rw [← hls, Option.some.inj hl]
    · intro n' t l hn' hl hln hls
      simp only [Indexes.remove, setSub_node, modNode_node, if_true, Option.map_eq_some_iff] at hn'
      obtain ⟨n, hn, rfl⟩ := hn'
      simp only [Indexes.remove, setSub_sub, modNode_sub] at hl
      split at hl
      · cases hl
      · rename_i hts
        have hg := h.indexed n t l hn hl hln hls
        by_cases hks : k.reqSid = noSid
        · simpa only [hks, ne_eq, not_true_eq_false, if_false] using hg
        · simp only [ne_eq, hks, not_false_eq_true, if_true]
          refine AssocMap.get_erase_eq_some.mpr ⟨fun he => hts ?_, hg⟩
          rw [he, h.indexed n s k hn hs rfl hks] at hg
          exact (Option.some.inj hg).symm
  · refine SidsOk.other (s := s) (e := k.reqNode) (h.mono (fun x hx => Or.inl hx)) hdk ?_ ?_ ?_ ?_
    · intro k' hk'
      rw [hs] at hk'
      rw [Option.some.inj hk']
    · intro k' hk'
      simp [Indexes.remove, setSub_sub] at hk'
    · intro t ht
      simp only [Indexes.remove, setSub_sub, modNode_sub, if_neg ht]
    · simp only [Indexes.remove, setSub_node, modNode_node, if_neg hdk]

theorem SidsOk.rekey {d : DownId} {s : SubId} {k : SubKey} {sid : Nat} (h : SidsOk ex I d)
    (hs : I.sub s = some k)
    (hsid : k.reqNode = d → ∀ n, I.node d = some n → sid ≠ noSid → n.sids.get sid = none)
    (hex : ∀ x, ex x → k.reqNode = d ∧ x = sid) : SidsOk (fun _ => False) (I.rekey s k sid) d := by
  by_cases hdk : d = k.reqNode
  · subst hdk
    constructor
    · intro n' x t hn' hg _
      simp only [Indexes.rekey, modNode_node, setSub_node, if_true, Option.map_eq_some_iff] at hn'
      obtain ⟨n, hn, rfl⟩ := hn'
      simp only [AssocMap.get_set] at hg
      simp only [Indexes.rekey, modNode_sub, setSub_sub]
      split at hg
      · cases hg
        exact ⟨_, if_pos rfl, rfl, Eq.symm ‹_›⟩
      · rename_i hne
        obtain ⟨hxk, hg⟩ := AssocMap.get_erase_eq_some.mp hg
        obtain ⟨l, hl, hln, hls⟩ := h.live n x t hn hg (fun hx => hne (hex x hx).2)
        refine ⟨l, ?_, hln, hls⟩
        rw [if_neg (fun he => hxk ?_), hl]
        rw [he, hs] at hl
        rw [← hls, Option.some.inj hl]
    · intro n' t l hn' hl hln hls
      simp only [Indexes.rekey, modNode_node, setSub_node, if_true, Option.map_eq_some_iff] at hn'
      obtain ⟨n, hn, rfl⟩ := hn'
      simp only [Indexes.rekey, modNode_sub, setSub_sub] at hl
      split at hl
      · rename_i he
        cases hl
        simp [he]
      · rename_i hts
        have hg := h.indexed n t l hn hl hln hls
        rw [AssocMap.get_set_ne (fun he => ?_)]
        · refine AssocMap.get_erase_eq_some.mpr ⟨fun he => hts ?_, hg⟩
          rw [he, h.indexed n s k hn hs rfl (he ▸ hls)] at hg
          exact (Option.some.inj hg).symm
        · rw [he, hsid rfl n hn (he ▸ hls)] at hg
          cases hg
  · refine SidsOk.other (s := s) (e := k.reqNode) (h.mono (fun x hx => hdk (hex x hx).1.symm)) hdk ?_ ?_ ?_ ?_
    · intro k' hk'
      rw [hs] at hk'
      rw [Option.some.inj hk']
    · intro k' hk'
      simp only [Indexes.rekey, modNode_sub, setSub_sub, if_true, Option.some.injEq] at hk'
      rw [← hk']
    · intro t ht
      simp only [Indexes.rekey, modNode_sub, setSub_sub, if_neg ht]
    · simp only [Indexes.rekey, modNode_node, setSub_node, if_neg hdk]

/-! ### What was found stays found -/

variable {R : DownId → CString → Prop}

theorem Found.mono {R' : DownId → CString → Prop} (h : Found R I) (hR : ∀ d p, R' d p → R d p) : Found R' I :=
  fun d p n s hr => h d p n s (hR d p hr)

theorem Found.insert (h : Found R I) {s : SubId} {k : SubKey} (hs : I.sub s = none)
    (hsid : ∀ n t, I.node k.reqNode = some n → n.sids.get k.reqSid = some t → I.sub t = none) :
    Found (fun d p => R d p ∨ d = k.reqNode ∧ p = k.path) (I.insert s k) := by
  intro d p n' t hr hn' ht
  simp only [Indexes.insert, modNode_node, setSub_node, modNode_sub, setSub_sub] at hn' ⊢
  by_cases hdk : d = k.reqNode
  · subst hdk
    simp only [if_true, Option.map_eq_some_iff] at hn'
    obtain ⟨n, hn, rfl⟩ := hn'
    simp only [AssocMap.get_set] at ht
    split at ht
    · cases ht
      exact ⟨k, if_pos rfl, by simp⟩
    · rename_i hpk
      obtain ⟨l, hl, hg⟩ := h _ p n t (hr.resolve_right (fun hr => hpk hr.2)) hn ht
      refine ⟨l, by rw [if_neg (fun he => by rw [he, hs] at hl; cases hl), hl], ?_⟩
      rw [AssocMap.get_set_ne (fun he => ?_)]
      · exact hg
      · rw [hsid n t hn (he ▸ hg)] at hl
        cases hl
  · rw [if_neg hdk] at hn'
    obtain ⟨l, hl, hg⟩ := h d p n' t (hr.resolve_right (fun hr => hdk hr.1)) hn' ht
    exact ⟨l, by rw [if_neg (fun he => by rw [he, hs] at hl; cases hl), hl], hg⟩

theorem Found.remove (h : Found R I) (hpaths : I.PathsOk) {s : SubId} {k : SubKey} (hs : I.sub s = some k)
    (hok : SidsOk ex I k.reqNode) : Found R (I.remove s k) := by
  intro d p n' t hr hn' ht
  have hne : ∀ n, I.node d = some n → n.paths.get p = some t → (d = k.reqNode → p ≠ k.path) → t ≠ s := by
    intro n hn hp hpk he
    obtain ⟨l, hl, hlp, hln⟩ := hpaths.live d n p t hn hp
    rw [he, hs] at hl
    cases hl
    exact hpk hln.symm hlp.symm
  simp only [Indexes.remove, setSub_node, setSub_sub, modNode_node, modNode_sub] at hn' ⊢
  by_cases hdk : d = k.reqNode
  · subst hdk
    simp only [if_true, Option.map_eq_some_iff] at hn'
    obtain ⟨n, hn, rfl⟩ := hn'
    obtain ⟨hpk, ht⟩ := AssocMap.get_erase_eq_some.mp ht
    have hts := hne n hn ht (fun _ => hpk)
    obtain ⟨l, hl, hg⟩ := h _ p n t hr hn ht
    refine ⟨l, by rw [if_neg hts, hl], ?_⟩
    by_cases hks : k.reqSid = noSid
    · simpa only [hks, ne_eq, not_true_eq_false, if_false] using hg
    · simp only [ne_eq, hks, not_false_eq_true, if_true]
      refine AssocMap.get_erase_eq_some.mpr ⟨fun he => hts ?_, hg⟩
      rw [he, hok.indexed n s k hn hs rfl hks] at hg
      exact (Option.some.inj hg).symm
  · rw [if_neg hdk] at hn'
    obtain ⟨l, hl, hg⟩ := h d p n' t hr hn' ht
    exact ⟨l, by rw [if_neg (hne n' hn' ht (fun he => absurd he hdk)), hl], hg⟩

/-- The entry that is erased under the old sid must not be another SubRequester's. -/
theorem Found.rekey (h : Found R I) (hpaths : I.PathsOk) {s : SubId} {k : SubKey} {sid : Nat}
    (hs : I.sub s = some k) (hok : SidsOk ex I k.reqNode)
    (hold : (∃ e p, R e p) → k.reqSid = noSid → ∀ n t, I.node k.reqNode = some n →
      n.sids.get noSid = some t → t = s ∨ I.sub t = none)
    (hnew : ∀ n t, I.node k.reqNode = some n → n.sids.get sid = some t → t = s ∨ I.sub t = none) :
    Found (fun d p => R d p ∨ d = k.reqNode ∧ p = k.path) (I.rekey s k sid) := by
  intro d p n' t hr hn' ht
  simp only [Indexes.rekey, modNode_node, setSub_node, modNode_sub, setSub_sub] at hn' ⊢
  by_cases hdk : d = k.reqNode
  · subst hdk
    simp only [if_true, Option.map_eq_some_iff] at hn'
    obtain ⟨n, hn, rfl⟩ := hn'
    by_cases hts : t = s
    · exact ⟨_, if_pos hts, by simp [hts]⟩
    · have hpk : p ≠ k.path := by
        intro he
        obtain ⟨l, hl, hlp, hln⟩ := hpaths.live _ n p t hn ht
        exact hts (hpaths.unique hl hs hln (hlp.trans he))
      have hr := hr.resolve_right (fun hr => hpk hr.2)
      obtain ⟨l, hl, hg⟩ := h _ p n t hr hn ht
      refine ⟨l, by rw [if_neg hts, hl], ?_⟩
      have hlive : t = s ∨ I.sub t = none → False := by
        rintro (he | he)
        · exact hts he
        · rw [he] at hl
          cases hl
      have hnsid : l.reqSid ≠ sid := fun he => hlive (hnew n t hn (he ▸ hg))
      rw [AssocMap.get_set_ne hnsid]
      refine AssocMap.get_erase_eq_some.mpr ⟨fun he => ?_, hg⟩
      by_cases hks : k.reqSid = noSid
      · exact hlive (hold ⟨_, p, hr⟩ hks n t hn (by rw [← hks, ← he]; exact hg))
      · rw [he, hok.indexed n s k hn hs rfl hks] at hg
        exact hts (Option.some.inj hg).symm
  · rw [if_neg hdk] at hn'
    obtain ⟨l, hl, hg⟩ := h d p n' t (hr.resolve_right (fun hr => hdk hr.1)) hn' ht
    refine ⟨l, ?_, hg⟩
    obtain ⟨l', hl', -, hln⟩ := hpaths.live d n' p t hn' ht
    rw [if_neg (fun he => hdk ?_), hl]
    rw [he, hs] at hl'
    rw [← hln, Option.some.inj hl']

/-! ### Both indexes -/

/-- Both indexes are right, and whoever is in `R` was found. -/
structure Ok (R : DownId → CString → Prop) (I : Indexes) : Prop where
  paths : I.PathsOk
  sids : ∀ d, SidsOk (fun _ => False) I d
  found : Found R I

/-- Both indexes are right but for the sid `sid` of `d`, which no live SubRequester has an entry for. -/
structure OkBut (R : DownId → CString → Prop) (d : DownId) (sid : Nat) (I : Indexes) : Prop where
  paths : I.PathsOk
  sids : ∀ e, SidsOk (fun x => d = e ∧ x = sid) I e
  dead : ∀ n t, I.node d = some n → n.sids.get sid = some t → I.sub t = none
  free : sid ≠ noSid → ∀ n, I.node d = some n → n.sids.get sid = none
  found : Found R I

theorem Ok.but (h : Ok R I) {d : DownId} {sid : Nat} (hfree : ∀ n, I.node d = some n → n.sids.get sid = none) :
    OkBut R d sid I where
  paths := h.paths
  sids e := (h.sids e).mono (fun _ => False.elim)
  dead n t hn ht := by rw [hfree n hn] at ht; cases ht
  free _ := hfree
  found := h.found

/-- The SubRequester that holds a sid is freed. -/
theorem Ok.remove (h : Ok R I) {s : SubId} {k : SubKey} (hs : I.sub s = some k)
    (hheld : ∀ n, I.node k.reqNode = some n → n.sids.get k.reqSid = some s) :
    OkBut R k.reqNode k.reqSid (I.remove s k) where
  paths := h.paths.remove hs
  sids e := ((h.sids e).remove hs).mono (fun x hx => by
    obtain ⟨he, hk, hx⟩ := hx.resolve_left id
    exact ⟨he, hx.trans hk.symm⟩)
  dead n' t hn' ht := by
    simp only [Indexes.remove, setSub_node, modNode_node, if_true, Option.map_eq_some_iff] at hn'
    obtain ⟨n, hn, rfl⟩ := hn'
    simp only [Indexes.remove, setSub_sub, modNode_sub]
    by_cases hks : k.reqSid = noSid
    · simp only [hks, ne_eq, not_true_eq_false, if_false] at ht
      have hheld := hheld n hn
      rw [hks, ht] at hheld
      rw [if_pos (Option.some.inj hheld)]
    · simp [hks] at ht
  free hne n' hn' := by
    simp only [Indexes.remove, setSub_node, modNode_node, if_true, Option.map_eq_some_iff] at hn'
    obtain ⟨n, hn, rfl⟩ := hn'
    simp [hne]
  found := h.found.remove h.paths hs (h.sids _)

theorem OkBut.insert {d : DownId} {sid : Nat} {path : CString} (h : OkBut R d sid I) {s : SubId} {n : NodeIndex}
    (hs : I.sub s = none) (hd : I.node d = some n) (hp : n.paths.get path = none) :
    Ok (fun e p => R e p ∨ e = d ∧ p = path) (I.insert s ⟨path, d, sid⟩) where
  paths := h.paths.insert hs hd hp
  sids e := by
    refine (h.sids e).insert hs (fun he n hn hne => h.free hne n ?_) (fun _ hx => hx)
    obtain rfl : d = e := he
    exact hn
  found := h.found.insert (k := ⟨path, d, sid⟩) hs h.dead

/-- A SubRequester moves to the sid. If it still had the placeholder and another one holds that, the other one
    must not be there any more. -/
theorem OkBut.rekey {d : DownId} {sid : Nat} (h : OkBut R d sid I) {s : SubId} {k : SubKey}
    (hs : I.sub s = some k) (hd : k.reqNode = d)
    (hold : (∃ e p, R e p) → k.reqSid = noSid → ∀ n t, I.node d = some n → n.sids.get noSid = some t →
      t = s ∨ I.sub t = none) :
    Ok (fun e p => R e p ∨ e = d ∧ p = k.path) (I.rekey s k sid) where
  paths := h.paths.rekey hs
  sids e := (h.sids e).rekey hs (fun he n hn hne => h.free hne n (by rw [← hd, he]; exact hn))
    (fun _ hx => ⟨hd.trans hx.1, hx.2⟩)
  found := by
    subst hd
    exact h.found.rekey h.paths hs (h.sids _) hold (fun n t hn ht => Or.inr (h.dead n t hn ht))

/-- The entry under the sid goes too. -/
theorem OkBut.clear {d : DownId} {sid : Nat} (h : OkBut R d sid I) :
    Ok R (I.modNode d (fun n => ⟨n.paths, n.sids.erase sid⟩)) where
  paths := by
    refine h.paths.congr (fun _ => rfl) (fun e => ?_)
    simp only [modNode_node]
    split
    · rename_i he
      rw [he, Option.map_map]
      rfl
    · rfl
  sids e := by
    by_cases hed : e = d
    · subst hed
      constructor
      · intro n' x t hn' hg _
        simp only [modNode_node, if_true, Option.map_eq_some_iff] at hn'
        obtain ⟨n, hn, rfl⟩ := hn'
        obtain ⟨hx, hg⟩ := AssocMap.get_erase_eq_some.mp hg
        exact (h.sids e).live n x t hn hg (fun hex => hx hex.2)
      · intro n' t l hn' hl hln hls
        simp only [modNode_node, if_true, Option.map_eq_some_iff] at hn'
        obtain ⟨n, hn, rfl⟩ := hn'
        have hg := (h.sids e).indexed n t l hn hl hln hls
        refine AssocMap.get_erase_eq_some.mpr ⟨fun he => ?_, hg⟩
        have hdead := h.dead n t hn (he ▸ hg)
        rw [modNode_sub, hdead] at hl
        cases hl
    · refine ((h.sids e).mono (fun x hx => hed hx.1.symm)).congr (fun _ _ _ => Iff.rfl) ?_
      simp only [modNode_node, if_neg hed]
  found := by
    intro e p n' t hr hn' ht
    by_cases hed : e = d
    · subst hed
      simp only [modNode_node, if_true, Option.map_eq_some_iff] at hn'
      obtain ⟨n, hn, rfl⟩ := hn'
      obtain ⟨l, hl, hg⟩ := h.found e p n t hr hn ht
      refine ⟨l, hl, AssocMap.get_erase_eq_some.mpr ⟨fun he => ?_, hg⟩⟩
      have hdead := h.dead n t hn (he ▸ hg)
      rw [hdead] at hl
      cases hl
    · simp only [modNode_node, if_neg hed] at hn'
      exact h.found e p n' t hr hn' ht

/-- The path index is right, and the sid index of every node but `d`. -/
structure OkAway (R : DownId → CString → Prop) (d : DownId) (I : Indexes) : Prop where
  paths : I.PathsOk
  sids : ∀ e, e ≠ d → SidsOk (fun _ => False) I e
  found : Found (fun e p => e ≠ d ∧ R e p) I

theorem Ok.away (h : Ok R I) (d : DownId) : OkAway R d I :=
  ⟨h.paths, fun e _ => h.sids e, h.found.mono (fun _ _ => And.right)⟩

/-- Changes of the SubRequesters and the maps of `d`. -/
theorem OkAway.congr {d : DownId} (h : OkAway R d I) {I' : Indexes} (hpaths : I'.PathsOk)
    (hsub : ∀ t k, k.reqNode ≠ d → (I'.sub t = some k ↔ I.sub t = some k))
    (hnode : ∀ e, e ≠ d → I'.node e = I.node e) : OkAway R d I' where
  paths := hpaths
  sids e he := (h.sids e he).congr (fun t k hk => hsub t k (hk ▸ he)) (hnode e he)
  found e p n t hr hn ht := by
    rw [hnode e hr.1] at hn
    obtain ⟨k, hk, hg⟩ := h.found e p n t hr hn ht
    obtain ⟨k', hk', -, hkn⟩ := h.paths.live e n p t hn ht
    cases hk.symm.trans hk'
    exact ⟨k, (hsub t k (hkn ▸ hr.1)).mpr hk, hg⟩

theorem OkAway.remove {d : DownId} (h : OkAway R d I) {s : SubId} {k : SubKey} (hs : I.sub s = some k)
    (hd : k.reqNode = d) : OkAway R d (I.remove s k) := by
  refine h.congr (h.paths.remove hs) (fun t l hl => ?_) (fun e he => ?_)
  · simp only [Indexes.remove, setSub_sub, modNode_sub]
    split
    · rename_i hts
      refine ⟨fun h' => (by cases h'), fun h' => absurd ?_ hl⟩
      rw [hts, hs] at h'
      rw [← Option.some.inj h', hd]
    · exact Iff.rfl
  · simp only [Indexes.remove, setSub_node, modNode_node, hd, if_neg he]

/-- The maps of `d` at the end of a link: no sid is left, in the index or in a SubRequester. -/
theorem OkAway.close {d : DownId} (h : OkAway R d I) {I' : Indexes}
    (hsub : ∀ t, I'.sub t = (I.sub t).map (fun k => if k.reqNode = d then { k with reqSid := noSid } else k))
    (hnode : ∀ e, I'.node e = if e = d then (I.node d).map (fun n => ⟨n.paths, .empty⟩) else I.node e) :
    Ok (fun e p => e ≠ d ∧ R e p) I' := by
  have haway : OkAway R d I' := by
    refine h.congr (h.paths.congr (fun t => ?_) (fun e => ?_)) (fun t k hk => ?_) (fun e he => ?_)
    · rw [hsub, Option.map_map]
      refine congrFun (congrArg _ (funext fun k => ?_)) _
      simp only [Function.comp]
      split <;> rfl
    · rw [hnode]
      split
      · rename_i he
        rw [he, Option.map_map]
        rfl
      · rfl
    · rw [hsub]
      constructor
      · intro h'
        obtain ⟨l, hl, rfl⟩ := Option.map_eq_some_iff.mp h'
        split at hk
        · exact absurd ‹_› hk
        · rw [if_neg ‹_›, hl]
      · intro h'
        rw [h', Option.map_some, if_neg hk]
    · rw [hnode, if_neg he]
  refine ⟨haway.paths, fun e => ?_, haway.found⟩
  by_cases he : e = d
  · subst he
    constructor
    · intro n sid s hn hg _
      rw [hnode, if_pos rfl] at hn
      obtain ⟨n0, -, rfl⟩ := Option.map_eq_some_iff.mp hn
      simp at hg
    · intro n s k _ hk hkn hks
      rw [hsub] at hk
      obtain ⟨l, -, rfl⟩ := Option.map_eq_some_iff.mp hk
      split at hks
      · exact absurd rfl hks
      · split at hkn <;> exact absurd hkn ‹_›
  · exact haway.sids e he

/-- A node with empty maps comes. -/
theorem Ok.newNode (h : Ok R I) {d : DownId} (hd : I.node d = none) :
    Ok R { I with node := fun e => if e = d then some ⟨.empty, .empty⟩ else I.node e } where
  paths := by
    constructor
    · intro e n p s hn hg
      simp only at hn
      split at hn
      · cases hn
        simp at hg
      · exact h.paths.live e n p s hn hg
    · intro s k hk
      obtain ⟨n, hn, hg⟩ := h.paths.indexed s k hk
      refine ⟨n, ?_, hg⟩
      simp only
      rw [if_neg (fun he => by rw [he, hd] at hn; cases hn), hn]
  sids e := by
    constructor
    · intro n sid s hn hg hex
      simp only at hn
      split at hn
      · cases hn
        simp at hg
      · exact (h.sids e).live n sid s hn hg hex
    · intro n s k hn hk hkn hks
      obtain ⟨n', hn', -⟩ := h.paths.indexed s k hk
      simp only at hn
      split at hn
      · rename_i he
        rw [hkn, he, hd] at hn'
        cases hn'
      · exact (h.sids e).indexed n s k hn hk hkn hks
  found := by
    intro e p n s hr hn hg
    simp only at hn
    split at hn
    · cases hn
      simp at hg
    · exact h.found e p n s hr hn hg

/-- A node without SubRequesters goes. -/
theorem Ok.dropNode (h : Ok R I) {d : DownId} (hd : ∀ n, I.node d = some n → ∀ p, n.paths.get p = none) :
    Ok R { I with node := fun e => if e = d then none else I.node e } where
  paths := by
    constructor
    · intro e n p s hn hg
      simp only at hn
      split at hn
      · cases hn
      · exact h.paths.live e n p s hn hg
    · intro s k hk
      obtain ⟨n, hn, hg⟩ := h.paths.indexed s k hk
      refine ⟨n, ?_, hg⟩
      simp only
      rw [if_neg (fun he => by rw [hd n (he ▸ hn)] at hg; cases hg), hn]
  sids e := by
    constructor
    · intro n sid s hn hg hex
      simp only at hn
      split at hn
      · cases hn
      · exact (h.sids e).live n sid s hn hg hex
    · intro n s k hn hk hkn hks
      simp only at hn
      split at hn
      · cases hn
      · exact (h.sids e).indexed n s k hn hk hkn hks
  found := by
    intro e p n s hr hn hg
    simp only at hn
    split at hn
    · cases hn
    · exact h.found e p n s hr hn hg

end Indexes

/-! ## The indexes of the broker -/

namespace Broker

/-- What the indexes are about. -/
def indexes (σ : Broker J) : Indexes where
  sub s := (σ.sub.get s).map (fun req => ⟨req.path, req.reqNode, req.reqSid⟩)
  node d := (σ.dnode.get d).map (fun node => ⟨node.reqSubPaths, node.reqSubSids⟩)

theorem indexes_sub {s : SubId} {req : SubRequester J} (h : σ.sub.get s = some req) :
    σ.indexes.sub s = some ⟨req.path, req.reqNode, req.reqSid⟩ := by simp [indexes, h]

theorem indexes_node {d : DownId} {node : DownstreamNode J} (h : σ.dnode.get d = some node) :
    σ.indexes.node d = some ⟨node.reqSubPaths, node.reqSubSids⟩ := by simp [indexes, h]

theorem Frame.indexes_node {ps : List Part} (h : Frame ps σ σ') (hi : Part.index ∉ ps) :
    σ'.indexes.node = σ.indexes.node := by
  have h3 : Heap.Rel (DownstreamNode.Agree .index) σ.dnode σ'.dnode := h _ hi
  funext d
  unfold Broker.indexes
  cases hg : σ.dnode.get d with
  | none => simp [hg, h3.get_none.mpr hg]
  | some node =>
    obtain ⟨node', hnode', hp, hs⟩ := h3.get hg
    simp [hg, hnode', hp, hs]

/-- A function whose frame has none of the three parts keeps the indexes. -/
theorem Frame.indexes {ps : List Part} (h : Frame ps σ σ') (hs : Part.subs ∉ ps) (hsid : Part.sid ∉ ps)
    (hi : Part.index ∉ ps) : σ'.indexes = σ.indexes := by
  have h1 : Heap.Rel (SubRequester.Agree .subs) σ.sub σ'.sub := h _ hs
  have h2 : Heap.Rel (SubRequester.Agree .sid) σ.sub σ'.sub := h _ hsid
  have hsub : σ'.indexes.sub = σ.indexes.sub := by
    funext s
    unfold Broker.indexes
    cases hg : σ.sub.get s with
    | none => simp [hg, h1.get_none.mpr hg]
    | some req =>
      obtain ⟨req', hreq', hp, hn⟩ := h1.get hg
      obtain ⟨req'', hreq'', hsid⟩ := h2.get hg
      cases hreq'.symm.trans hreq''
      have hsid : req'.reqSid = req.reqSid := hsid
      simp [hg, hreq', hp, hn, hsid]
  have hnode := h.indexes_node hi
  generalize σ'.indexes = I' at *
  generalize σ.indexes = I at *
  cases I'
  cases I
  cases hsub
  cases hnode
  rfl

theorem indexes_modDnode (σ : Broker J) (d : DownId) {f : DownstreamNode J → DownstreamNode J}
    {g : NodeIndex → NodeIndex}
    (hfg : ∀ node, NodeIndex.mk (f node).reqSubPaths (f node).reqSubSids = g ⟨node.reqSubPaths, node.reqSubSids⟩) :
    (σ.modDnode d f).indexes = σ.indexes.modNode d g := by
  unfold indexes Indexes.modNode
  congr 1
  funext e
  show ((σ.dnode.modify d f).get e).map _ = _
  rw [Heap.get_modify]
  split
  · show _ = Option.map g ((σ.dnode.get d).map _)
    cases σ.dnode.get d with
    | none => rfl
    | some node => exact congrArg some (hfg node)
  · rfl

theorem indexes_modSub {s : SubId} {req : SubRequester J} (hs : σ.sub.get s = some req)
    (f : SubRequester J → SubRequester J) :
    (σ.modSub s f).indexes = σ.indexes.setSub s (some ⟨(f req).path, (f req).reqNode, (f req).reqSid⟩) := by
  unfold indexes Indexes.setSub
  congr 1
  funext t
  show ((σ.sub.modify s f).get t).map _ = _
  rw [Heap.get_modify, hs]
  split <;> rfl

theorem newSub_indexes {d : DownId} {path : CString} {sid qos : Nat}
    (h : σ.newSub d path sid qos = some σ') :
    σ'.indexes = σ.indexes.insert σ.sub.next ⟨path, d, sid⟩ := by
  simp only [newSub, Option.bind_eq_bind, Option.bind_eq_some_iff] at h
  obtain ⟨τ, hτ, h⟩ := h
  obtain rfl := Option.some.inj h
  have hf := (Frame.serializeIf hτ).indexes (by decide) (by decide) (by decide)
  rw [indexes_modDnode (g := fun n => ⟨n.paths.set path σ.sub.next, n.sids.set sid σ.sub.next⟩) τ d
    (fun node => rfl), hf]
  unfold Indexes.insert
  congr 1
  unfold indexes Indexes.setSub
  congr 1
  funext t
  show ((σ.sub.alloc _).get t).map _ = _
  rw [Heap.get_alloc]
  split <;> rfl

theorem rekey_indexes {d : DownId} {s : SubId} {sid : Nat} {req : SubRequester J}
    (h : σ.rekey d s sid = some σ') (hs : σ.sub.get s = some req) (hd : req.reqNode = d) :
    σ'.indexes = σ.indexes.rekey s ⟨req.path, req.reqNode, req.reqSid⟩ sid := by
  subst hd
  simp only [Broker.rekey, Option.bind_eq_bind, Option.bind_eq_some_iff] at h
  obtain ⟨req', hs', h⟩ := h
  cases hs.symm.trans hs'
  obtain rfl := Option.some.inj h
  have hset := indexes_modDnode (g := fun n => ⟨n.paths, n.sids.set sid s⟩)
    ((σ.modDnode req.reqNode (fun node => { node with reqSubSids := node.reqSubSids.erase req.reqSid })).modSub s
      (fun req => { req with reqSid := sid })) req.reqNode
    (f := fun node => { node with reqSubSids := node.reqSubSids.set sid s }) (fun node => rfl)
  have hsub := indexes_modSub (σ := σ.modDnode req.reqNode (fun node =>
    { node with reqSubSids := node.reqSubSids.erase req.reqSid })) hs (fun req => { req with reqSid := sid })
  have herase := indexes_modDnode (g := fun n => ⟨n.paths, n.sids.erase req.reqSid⟩) σ req.reqNode
    (f := fun node => { node with reqSubSids := node.reqSubSids.erase req.reqSid }) (fun node => rfl)
  rw [hset, hsub, herase]
  simp only [Indexes.rekey, Indexes.modNode, Indexes.setSub]
  congr 1
  funext e
  by_cases he : e = req.reqNode
  · simp only [if_pos he, if_true, Option.map_map]
    rfl
  · simp only [if_neg he]

theorem brokerFreeSubRequester_live {s : SubId} (h : σ.brokerFreeSubRequester s = some σ') :
    ∃ req, σ.sub.get s = some req := by
  simp only [brokerFreeSubRequester, releaseSub, Option.bind_eq_bind, Option.bind_eq_some_iff] at h
  obtain ⟨-, ⟨req, hs, -⟩, -⟩ := h
  exact ⟨req, hs⟩

/-- Freeing a SubRequester: it leaves the indexes, and at the end it is dead. -/
theorem brokerFreeSubRequester_indexes {s : SubId} {req : SubRequester J}
    (h : σ.brokerFreeSubRequester s = some σ') (hs : σ.sub.get s = some req) :
    σ'.indexes = σ.indexes.remove s ⟨req.path, req.reqNode, req.reqSid⟩ := by
  simp only [brokerFreeSubRequester, releaseSub, Option.bind_eq_bind, Option.bind_eq_some_iff] at h
  obtain ⟨τ, ⟨req', hs', node, -, τ1, h1, τ2, h2, h3⟩, υ, hυ, h⟩ := h
  cases hs.symm.trans hs'
  obtain rfl := Option.some.inj h
  have hf : Frame ([.pending, .place, .resp, .link, .streams, .values, .subStream, .storage, .qosQueue, .queue,
      .acks] : List Part) (σ.dropIndexes req) υ :=
    ((Frame.dropPending _ s req).mono (by decide)).trans (((Frame.leaveStream h1).mono (by decide)).trans
      (((Frame.dropStored h2).mono (by decide)).trans (((Frame.dropQosQueue h3).mono (by decide)).trans
        ((Frame.purgePendingAcks hυ).mono (by decide)))))
  have hυi := hf.indexes (by decide) (by decide) (by decide)
  have hdrop : (σ.dropIndexes req).indexes = σ.indexes.modNode req.reqNode (fun n =>
      ⟨n.paths.erase req.path, if req.reqSid ≠ noSid then n.sids.erase req.reqSid else n.sids⟩) :=
    indexes_modDnode σ req.reqNode (fun node => rfl)
  unfold Indexes.remove
  rw [← hdrop, ← hυi]
  unfold indexes Indexes.setSub
  congr 1
  funext t
  show ((υ.sub.free s).get t).map _ = _
  rw [Heap.get_free]
  split <;> rfl

/-- The other SubRequesters stay when `s` is freed. -/
theorem brokerFreeSubRequester_sub {s t : SubId} (h : σ.brokerFreeSubRequester s = some σ') (hts : t ≠ s)
    {req : SubRequester J} (ht : σ.sub.get t = some req) :
    ∃ req', σ'.sub.get t = some req' ∧ req'.reqNode = req.reqNode := by
  obtain ⟨reqs, hs⟩ := brokerFreeSubRequester_live h
  have hi := congrArg (fun I => Indexes.sub I t) (brokerFreeSubRequester_indexes h hs)
  simp only [Indexes.remove, Indexes.setSub_sub, if_neg hts, Indexes.modNode_sub, indexes_sub ht] at hi
  obtain ⟨req', ht', hk⟩ := Option.map_eq_some_iff.mp hi
  exact ⟨req', ht', (SubKey.mk.inj hk).2.1⟩

/-- A SubRequester that is there after `s` was freed was there before. -/
theorem brokerFreeSubRequester_sub_rev {s t : SubId} (h : σ.brokerFreeSubRequester s = some σ')
    {req' : SubRequester J} (ht : σ'.sub.get t = some req') :
    ∃ req, σ.sub.get t = some req ∧ req'.reqNode = req.reqNode := by
  obtain ⟨reqs, hs⟩ := brokerFreeSubRequester_live h
  have hi := congrArg (fun I => Indexes.sub I t) (brokerFreeSubRequester_indexes h hs)
  simp only [Indexes.remove, Indexes.setSub_sub, Indexes.modNode_sub, indexes_sub ht] at hi
  split at hi
  · cases hi
  · obtain ⟨req, hreq, hk⟩ := Option.map_eq_some_iff.mp hi.symm
    exact ⟨req, hreq, (SubKey.mk.inj hk).2.1.symm⟩

/-- What the calls of a handler keep, when none of them changes an index. -/
theorem Calls.indexes {A : Call J → Prop} (h : Calls cfg A σ σ')
    (hA : ∀ c, A c → Part.subs ∉ c.parts ∧ Part.sid ∉ c.parts ∧ Part.index ∉ c.parts) :
    σ'.indexes = σ.indexes :=
  DSLink.Calls.invariant (fun τ => τ.indexes = σ.indexes) h
    (fun _ c _ hinv hc hrun => ((Call.frame hrun).indexes (hA c hc).1 (hA c hc).2.1 (hA c hc).2.2).trans hinv) rfl

theorem places_keep (c : Call J) (hc : c.places) :
    Part.subs ∉ c.parts ∧ Part.sid ∉ c.parts ∧ Part.index ∉ c.parts := by
  cases c <;> simp [Call.places] at hc <;> simp [Call.parts, updateParts]

theorem sendWaiting_indexes {s : SubId} (h : σ.sendWaiting cfg s = some σ') : σ'.indexes = σ.indexes := by
  have hf : ∀ {ps : List Part} {τ}, Frame ps σ τ → Part.subs ∉ ps ∧ Part.sid ∉ ps ∧ Part.index ∉ ps →
      τ.indexes = σ.indexes := fun hf hps => hf.indexes hps.1 hps.2.1 hps.2.2
  simp only [sendWaiting, Option.bind_eq_bind, Option.bind_eq_some_iff] at h
  obtain ⟨req, -, h⟩ := h
  split at h
  · exact hf (.brokerUpdateSubReqQos h) (by decide)
  · split at h
    · exact hf (.sendQueuedMessages h) (by decide)
    · split at h
      · cases h; rfl
      · exact hf (.sendLastValue h) (by decide)

/-! ## Subscribing -/

variable {R : DownId → CString → Prop}

theorem resubscribe_ok {d : DownId} {s : SubId} {sid qos : Nat} {req : SubRequester J}
    (hok : σ.indexes.OkBut R d sid) (hs : σ.sub.get s = some req) (hd : req.reqNode = d)
    (hold : (∃ e p, R e p) → req.reqSid = noSid → ∀ n t, σ.indexes.node d = some n →
      n.sids.get noSid = some t → t = s ∨ σ.indexes.sub t = none) (h : σ.resubscribe cfg d s sid qos = some σ') :
    σ'.indexes.Ok (fun e p => R e p ∨ e = d ∧ p = req.path) := by
  simp only [resubscribe, Option.bind_eq_bind, Option.bind_eq_some_iff] at h
  obtain ⟨τ, hτ, υ, hυ, h⟩ := h
  rw [sendWaiting_indexes h, (Frame.brokerUpdateSubQos hυ).indexes (by decide) (by decide) (by decide),
    rekey_indexes hτ hs hd]
  exact hok.rekey (indexes_sub hs) hd hold

theorem subscribeNew_ok {d : DownId} {path : CString} {sid qos : Nat} {now : J} {n : NodeIndex}
    (hok : σ.indexes.OkBut R d sid) (hd : σ.indexes.node d = some n) (hp : n.paths.get path = none)
    (h : σ.subscribeNew cfg d path sid qos now = some σ') :
    σ'.indexes.Ok (fun e p => R e p ∨ e = d ∧ p = path) := by
  obtain ⟨τ, respNode, hτ, -, h⟩ := subscribeNew_calls h
  rw [Calls.indexes (placeSub_calls h) places_keep, newSub_indexes hτ]
  exact hok.insert (by simp [indexes]) hd hp

/-- The case that breaks the sid index: another sid for a SubRequester that still has the placeholder, while
    the index has an entry under the placeholder for another one. -/
def PlaceholderTaken (σ : Broker J) (d : DownId) (path : CString) (sid : Nat) : Prop :=
  sid ≠ noSid ∧ ∃ node ∈ σ.dnode.get d, ∃ s ∈ node.reqSubPaths.get path, ∃ t ∈ node.reqSubSids.get noSid,
    t ≠ s ∧ ∃ req ∈ σ.sub.get s, req.reqSid = noSid

instance (σ : Broker J) (d : DownId) (path : CString) (sid : Nat) : Decidable (σ.PlaceholderTaken d path sid) := by
  delta PlaceholderTaken
  infer_instance

theorem subscribePath_ok {d : DownId} {path : CString} {sid qos : Nat} {now : J} (hok : σ.indexes.Ok R)
    (hfree : (∃ e p, R e p) → ¬σ.PlaceholderTaken d path sid) (h : σ.subscribePath cfg d path sid qos now = some σ') :
    σ'.indexes.Ok (fun e p => R e p ∨ e = d ∧ p = path) := by
  simp only [subscribePath, Option.bind_eq_bind, Option.bind_eq_some_iff] at h
  obtain ⟨node, hd, h⟩ := h
  have hnode := indexes_node hd
  have hlive : ∀ s, node.reqSubSids.get sid = some s → ∃ req, σ.sub.get s = some req ∧ req.reqNode = d ∧
      req.reqSid = sid := by
    intro s hs
    obtain ⟨k, hk, hkn, hks⟩ := (hok.sids d).live _ sid s hnode hs id
    obtain ⟨req, hreq, rfl⟩ := Option.map_eq_some_iff.mp hk
    exact ⟨req, hreq, hkn, hks⟩
  have hpath : ∀ s, node.reqSubPaths.get path = some s → ∃ req, σ.sub.get s = some req ∧ req.path = path ∧
      req.reqNode = d := by
    intro s hs
    obtain ⟨k, hk, hkp, hkn⟩ := hok.paths.live d _ path s hnode hs
    obtain ⟨req, hreq, rfl⟩ := Option.map_eq_some_iff.mp hk
    exact ⟨req, hreq, hkp, hkn⟩
  -- the SubRequester that holds the sid is freed: the rest goes on without it
  have hremove : ∀ s req τ, node.reqSubSids.get sid = some s → σ.sub.get s = some req → req.reqNode = d →
      req.reqSid = sid → σ.brokerFreeSubRequester s = some τ →
      τ.indexes = σ.indexes.remove s ⟨req.path, d, sid⟩ ∧ τ.indexes.OkBut R d sid := by
    intro s req τ hget hs hn hsid hτ
    have hi := brokerFreeSubRequester_indexes hτ hs
    rw [hn, hsid] at hi
    refine ⟨hi, ?_⟩
    have hk := indexes_sub hs
    rw [hn, hsid] at hk
    rw [hi]
    exact hok.remove hk (fun n hn' => by cases hnode.symm.trans hn'; exact hget)
  split at h
  · -- both indexes have an entry
    rename_i s s' hsid hp
    obtain ⟨req, hs, hn, hrs⟩ := hlive s hsid
    obtain ⟨req', hs', hrp, hn'⟩ := hpath s' hp
    split at h
    · rename_i he
      subst he
      rw [(Frame.brokerUpdateSubQos h).indexes (by decide) (by decide) (by decide)]
      refine ⟨hok.paths, hok.sids, fun e p n t hr he ht => ?_⟩
      by_cases hep : e = d ∧ p = path
      · obtain ⟨rfl, rfl⟩ := hep
        obtain rfl := Option.some.inj (hnode.symm.trans he)
        obtain rfl := Option.some.inj (hp.symm.trans ht)
        exact ⟨_, indexes_sub hs, by rw [hrs]; exact hsid⟩
      · exact hok.found e p n t (hr.resolve_right hep) he ht
    · rename_i hne
      simp only [Option.bind_eq_some_iff] at h
      obtain ⟨τ, hτ, h⟩ := h
      obtain ⟨hi, hbut⟩ := hremove s req τ hsid hs hn hrs hτ
      have hτs' : τ.indexes.sub s' = some ⟨path, d, req'.reqSid⟩ := by
        rw [hi]
        simp only [Indexes.remove, Indexes.setSub_sub, Indexes.modNode_sub, if_neg (Ne.symm hne)]
        rw [indexes_sub hs', hrp, hn']
      obtain ⟨req'', hs'', hk⟩ := Option.map_eq_some_iff.mp hτs'
      obtain ⟨hk1, hk2, hk3⟩ := SubKey.mk.inj hk
      have hfin := resubscribe_ok hbut hs'' hk2 ?_ h
      · rwa [hk1] at hfin
      · intro hR hno n t hnn ht
        rw [hi] at hnn ⊢
        simp only [Indexes.remove, Indexes.setSub_node, Indexes.modNode_node, if_true, hnode,
          Option.map_some, Option.some.injEq] at hnn
        subst hnn
        simp only [Indexes.remove, Indexes.setSub_sub, Indexes.modNode_sub]
        by_cases hsn : sid = noSid
        · refine Or.inr (if_pos ?_)
          rw [if_neg (by simp [hsn]), ← hsn, hsid] at ht
          exact (Option.some.inj ht).symm
        · rw [if_pos hsn] at ht
          refine Or.inl (Classical.byContradiction (fun hts => hfree hR ?_))
          exact ⟨hsn, node, hd, s', hp, t, (AssocMap.get_erase_eq_some.mp ht).2, hts, req', hs', hk3 ▸ hno⟩
  · -- the sid is taken, the path is not
    rename_i s hsid hp
    obtain ⟨req, hs, hn, hrs⟩ := hlive s hsid
    simp only [Option.bind_eq_some_iff] at h
    obtain ⟨τ, hτ, h⟩ := h
    obtain ⟨hi, hbut⟩ := hremove s req τ hsid hs hn hrs hτ
    have hnodeτ : τ.indexes.node d = some ⟨node.reqSubPaths.erase req.path,
        if sid ≠ noSid then node.reqSubSids.erase sid else node.reqSubSids⟩ := by
      rw [hi]
      simp only [Indexes.remove, Indexes.setSub_node, Indexes.modNode_node, if_true, hnode, Option.map_some]
    exact subscribeNew_ok hbut hnodeτ (by rw [AssocMap.get_erase]; split <;> [rfl; exact hp]) h
  · -- the path is subscribed to under another sid
    rename_i s' hsid hp
    obtain ⟨req', hs', hrp, hn'⟩ := hpath s' hp
    have hbut := hok.but (fun n hn => by cases hnode.symm.trans hn; exact hsid)
    have hfin := resubscribe_ok hbut hs' hn' ?_ h
    · rwa [hrp] at hfin
    · intro hR hno n t hnn ht
      cases hnode.symm.trans hnn
      refine Or.inl (Classical.byContradiction (fun hts => hfree hR ?_))
      refine ⟨fun hsn => ?_, node, hd, s', hp, t, ht, hts, req', hs', hno⟩
      rw [hsn, ht] at hsid
      cases hsid
  · rename_i hsid hp
    exact subscribeNew_ok (hok.but (fun n hn => by cases hnode.symm.trans hn; exact hsid)) hnode hp h

theorem handleUnsubscribe_ok {d : DownId} {sid : Nat} (hok : σ.indexes.Ok R)
    (h : σ.handleUnsubscribe d sid = some σ') : σ'.indexes.Ok R := by
  simp only [handleUnsubscribe, Option.bind_eq_bind, Option.bind_eq_some_iff] at h
  obtain ⟨node, hd, h⟩ := h
  have hnode := indexes_node hd
  split at h
  · cases h
    exact hok
  · rename_i s hsid
    obtain ⟨k, hk, hkn, hks⟩ := (hok.sids d).live _ sid s hnode hsid id
    obtain ⟨req, hs, rfl⟩ := Option.map_eq_some_iff.mp hk
    have hremove := hok.remove hk (fun n hn => by
      rw [hkn] at hn
      cases hnode.symm.trans hn
      rw [hks]
      exact hsid)
    -- the entry is erased before the SubRequester is freed: the order makes no difference
    have herase := indexes_modDnode (g := fun n => ⟨n.paths, n.sids.erase sid⟩) σ d
      (f := fun node => { node with reqSubSids := node.reqSubSids.erase sid }) (fun node => rfl)
    have hfree := brokerFreeSubRequester_indexes h hs
    subst hkn hks
    rw [hfree, herase]
    have hswap : (σ.indexes.modNode req.reqNode (fun n => ⟨n.paths, n.sids.erase req.reqSid⟩)).remove s
        ⟨req.path, req.reqNode, req.reqSid⟩
        = (σ.indexes.remove s ⟨req.path, req.reqNode, req.reqSid⟩).modNode req.reqNode
            (fun n => ⟨n.paths, n.sids.erase req.reqSid⟩) := by
      simp only [Indexes.remove, Indexes.modNode, Indexes.setSub, if_true, Option.map_map]
      congr 1
      funext e
      split
      · refine congrFun (congrArg _ (funext fun n => ?_)) _
        simp only [Function.comp]
        split <;> rfl
      · rfl
    rw [hswap]
    exact hremove.clear

/-! ## Closing a link -/

theorem freeSubs_away {d : DownId} {l : List SubId} (haway : σ.indexes.OkAway R d)
    (hl : ∀ s ∈ l, ∀ req, σ.sub.get s = some req → req.reqNode = d) (h : σ.freeSubs l = some σ') :
    σ'.indexes.OkAway R d := by
  induction l generalizing σ with
  | nil => cases h; exact haway
  | cons s l ih =>
    simp only [freeSubs, List.foldlM_cons, Option.bind_eq_bind, Option.bind_eq_some_iff] at h
    obtain ⟨τ, hτ, h⟩ := h
    obtain ⟨req, hs⟩ := brokerFreeSubRequester_live hτ
    have hi := brokerFreeSubRequester_indexes hτ hs
    refine ih (hi ▸ haway.remove (indexes_sub hs) (hl s List.mem_cons_self req hs)) (fun t ht req' ht' => ?_) h
    obtain ⟨req0, hreq0, hn⟩ := brokerFreeSubRequester_sub_rev hτ ht'
    exact hn.trans (hl t (List.mem_cons_of_mem _ ht) req0 hreq0)

/-- Only SubRequesters of the list are collected. -/
theorem collectNonQos_subset {l l' : List SubId} (h : σ.collectNonQos l = some (σ', l')) : ∀ s ∈ l', s ∈ l := by
  induction l generalizing σ l' with
  | nil =>
    cases h
    exact fun _ hs => hs
  | cons a l ih =>
    intro s hs
    simp only [collectNonQos, Option.bind_eq_bind, Option.bind_eq_some_iff] at h
    obtain ⟨req, -, h⟩ := h
    split at h
    · simp only [Option.bind_eq_some_iff] at h
      obtain ⟨⟨τ, l0⟩, hτ, h⟩ := h
      cases h
      rcases List.mem_cons.mp hs with rfl | hs
      · exact List.mem_cons_self
      · exact List.mem_cons_of_mem _ (ih hτ s hs)
    · exact List.mem_cons_of_mem _ (ih h s hs)

theorem resetSids_sub {l : List SubId} (h : σ.resetSids l = some σ') (t : SubId) :
    σ'.sub.get t = (σ.sub.get t).map (fun req => if t ∈ l then { req with reqSid := noSid } else req) := by
  induction l generalizing σ with
  | nil =>
    cases h
    simp
  | cons s l ih =>
    simp only [resetSids, List.foldlM_cons, Option.bind_eq_bind, Option.bind_eq_some_iff] at h
    obtain ⟨τ, ⟨req, -, hτ⟩, h⟩ := h
    obtain rfl := Option.some.inj hτ
    rw [ih h]
    show Option.map _ ((σ.sub.modify s _).get t) = _
    rw [Heap.get_modify]
    by_cases hts : t = s
    · subst hts
      rw [if_pos rfl, Option.map_map]
      refine congrFun (congrArg _ (funext fun r => ?_)) _
      simp
    · simp [hts]

theorem brokerCloseLink_ok {d : DownId} (hok : σ.indexes.Ok R) (h : σ.brokerCloseLink d = some σ') :
    σ'.indexes.Ok (fun e p => e ≠ d ∧ R e p) := by
  simp only [brokerCloseLink, Option.bind_eq_bind, Option.bind_eq_some_iff] at h
  obtain ⟨ω, h, hω⟩ := h
  obtain rfl := Option.some.inj hω
  simp only [brokerRemoteDslinkFree, Option.bind_eq_bind, Option.bind_eq_some_iff] at h
  obtain ⟨node, hd, ⟨τ, l⟩, hτ, υ, hυ, node', hd', φ, hφ, h⟩ := h
  obtain rfl := Option.some.inj h
  have hτi : τ.indexes = σ.indexes := by
    rw [(Frame.collectNonQos hτ).indexes (by decide) (by decide) (by decide),
      (Frame.freePendingAcks σ d).indexes (by decide) (by decide) (by decide)]
  -- the SubRequesters that are freed are the requester's own
  have hown : ∀ s ∈ l, ∀ req, τ.sub.get s = some req → req.reqNode = d := by
    intro s hs req hreq
    obtain ⟨p, hp⟩ := AssocMap.mem_values.mp (collectNonQos_subset hτ s hs)
    obtain ⟨k, hk, -, hkn⟩ := hok.paths.live d _ p s (indexes_node hd) hp
    have hreqi := indexes_sub hreq
    rw [hτi, hk] at hreqi
    rw [Option.some.inj hreqi] at hkn
    exact hkn
  have haway := freeSubs_away (hτi ▸ hok.away d) hown hυ
  have hpaths := haway.paths
  refine haway.close (fun t => ?_) (fun e => ?_)
  · show ((φ.sub.get t).map _) = _
    rw [resetSids_sub hφ]
    cases ht : υ.sub.get t with
    | none => simp [indexes, ht]
    | some req =>
      rw [indexes_sub ht]
      have hmem : t ∈ node'.reqSubPaths.values ↔ req.reqNode = d := by
        rw [AssocMap.mem_values]
        constructor
        · rintro ⟨p, hp⟩
          obtain ⟨k, hk, -, hkn⟩ := hpaths.live d _ p t (indexes_node hd') hp
          rw [indexes_sub ht] at hk
          rw [← hkn, ← Option.some.inj hk]
        · intro hn
          obtain ⟨n, hn', hp⟩ := hpaths.indexed t _ (indexes_sub ht)
          rw [show (SubKey.mk req.path req.reqNode req.reqSid).reqNode = d from hn, indexes_node hd'] at hn'
          rw [← Option.some.inj hn'] at hp
          exact ⟨_, hp⟩
      by_cases hn : req.reqNode = d
      · simp [hmem, hn]
      · simp [hmem, hn]
  · have hclear := indexes_modDnode (g := fun n => ⟨n.paths, .empty⟩) φ d
      (f := fun node => { node with reqSubSids := .empty }) (fun node => rfl)
    rw [(Frame.dropLink _ d).indexes_node (by decide), hclear]
    simp only [Indexes.modNode, (Frame.resetSids hφ).indexes_node (by decide)]

theorem initNode_ok {parent : NodeId} {name : CString} (hok : σ.indexes.Ok R)
    (h : σ.initNode parent name = some σ') : σ'.indexes.Ok R := by
  simp only [initNode, brokerInitDownstreamNode, Option.bind_eq_bind, Option.bind_eq_some_iff] at h
  obtain ⟨node, -, h⟩ := h
  split at h
  · cases h
    exact hok
  · simp only [Option.bind_eq_some_iff] at h
    obtain ⟨⟨τ, id⟩, ⟨node', -, hτ⟩, h⟩ := h
    cases h
    cases hτ
    have hi := hok.newNode (d := σ.dnode.next) (by simp [indexes])
    convert hi using 1
    unfold indexes
    congr 1
    funext e
    show ((σ.dnode.alloc _).get e).map _ = _
    rw [Heap.get_alloc]
    split <;> rfl

theorem freeDownstreamNode_ok {d : DownId} (hok : σ.indexes.Ok R) (h : σ.freeDownstreamNode d = some σ') :
    σ'.indexes.Ok R := by
  simp only [freeDownstreamNode, Option.bind_eq_bind, Option.bind_eq_some_iff] at h
  obtain ⟨node, hd, h⟩ := h
  split at h
  · cases h
  · rename_i hsize
    simp only [Option.bind_eq_some_iff] at h
    obtain ⟨τ, hτ, h⟩ := h
    cases h
    have hτi := (Frame.leaveParent hτ).indexes (by decide) (by decide) (by decide)
    have hi := (hτi ▸ hok : τ.indexes.Ok R).dropNode (d := d) (fun n hn p => by
      rw [hτi, indexes_node hd] at hn
      cases hn
      exact AssocMap.size_eq_zero.mp (by simpa using not_or.mp hsize |>.1) p)
    convert hi using 1
    unfold indexes
    congr 1
    funext e
    show ((τ.dnode.free d).get e).map _ = _
    rw [Heap.get_free]
    split <;> rfl

/-! ## Runs -/

/-- The last link of `d` has seen a subscription to `p`; the log is read latest first. -/
def resubscribed : List (Event J) → DownId → CString → Bool
  | [], _, _ => false
  | .closeLink d' :: log, d, p => d ≠ d' && resubscribed log d p
  | .subscribe d' sub _ :: log, d, p =>
    resubscribed log d p || (d = d' && sub.path = some p && sub.sid.isSome
      && PermissionLevel.read.toNat ≤ sub.permissionOnPath.toNat)
  | _ :: log, d, p => resubscribed log d p

/-- `req_sub_paths` and `req_sub_sids` describe the same live SubRequesters. -/
structure IndexesInverse (σ : Broker J) (log : List (Event J)) : Prop where
  sids : ∀ d node sid s, σ.dnode.get d = some node → node.reqSubSids.get sid = some s →
    ∃ req, σ.sub.get s = some req ∧ req.reqSid = sid ∧ node.reqSubPaths.get req.path = some s
  paths : ∀ d node path s, σ.dnode.get d = some node → node.reqSubPaths.get path = some s →
    ∃ req, σ.sub.get s = some req ∧ req.path = path ∧ req.reqNode = d
  found : ∀ d node path s, σ.dnode.get d = some node → node.link.isSome → resubscribed log d path →
    node.reqSubPaths.get path = some s →
    ∃ req, σ.sub.get s = some req ∧ node.reqSubSids.get req.reqSid = some s

theorem inverse_of_ok {log : List (Event J)} (h : σ.indexes.Ok (fun d p => resubscribed log d p = true)) :
    IndexesInverse σ log where
  sids d node sid s hd hs := by
    obtain ⟨k, hk, hkn, hks⟩ := (h.sids d).live _ sid s (indexes_node hd) hs id
    obtain ⟨n, hn, hp⟩ := h.paths.indexed s k hk
    rw [hkn, indexes_node hd] at hn
    cases hn
    obtain ⟨req, hreq, rfl⟩ := Option.map_eq_some_iff.mp hk
    exact ⟨req, hreq, hks, hp⟩
  paths d node path s hd hs := by
    obtain ⟨k, hk, hkp, hkn⟩ := h.paths.live d _ path s (indexes_node hd) hs
    obtain ⟨req, hreq, rfl⟩ := Option.map_eq_some_iff.mp hk
    exact ⟨req, hreq, hkp, hkn⟩
  found d node path s hd _ hr hs := by
    obtain ⟨k, hk, hg⟩ := h.found d path _ s hr (indexes_node hd) hs
    obtain ⟨req, hreq, rfl⟩ := Option.map_eq_some_iff.mp hk
    exact ⟨req, hreq, hg⟩

/-- An accepted subscribe request does not meet the case that breaks the sid index. -/
def PlaceholderFree (σ : Broker J) : Event J → Prop
  | .subscribe d sub _ => PermissionLevel.read.toNat ≤ sub.permissionOnPath.toNat →
    ∀ path ∈ sub.path, ∀ jSid ∈ sub.sid, ¬σ.PlaceholderTaken d path (toU32 jSid)
  | _ => True

instance (σ : Broker J) (e : Event J) : Decidable (σ.PlaceholderFree e) := by
  cases e <;> (delta PlaceholderFree; infer_instance)

/-- A call that changes no index, or frees a downstream node, which has no SubRequester. -/
def keepsIndexes (c : Call J) : Prop :=
  (∃ d, c = .dropDnode d) ∨ Part.subs ∉ c.parts ∧ Part.sid ∉ c.parts ∧ Part.index ∉ c.parts

theorem Calls.indexes_ok {A : Call J → Prop} (h : Calls cfg A σ σ') (hA : ∀ c, A c → keepsIndexes c)
    (hok : σ.indexes.Ok R) : σ'.indexes.Ok R := by
  refine DSLink.Calls.invariant (fun τ => τ.indexes.Ok R) h (fun τ c τ' hτ hc hrun => ?_) hok
  rcases hA c hc with ⟨d, rfl⟩ | hq
  · exact freeDownstreamNode_ok hτ hrun
  · rw [(Call.frame hrun).indexes hq.1 hq.2.1 hq.2.2]
    exact hτ

/-- The requests that find their path in the sid index, if nothing else breaks it. -/
def Event.adds : Event J → DownId → CString → Prop
  | .subscribe d' sub _, d, p => d = d' ∧ sub.path = some p ∧ sub.sid.isSome
      ∧ PermissionLevel.read.toNat ≤ sub.permissionOnPath.toNat
  | _, _, _ => False

/-- The links that close. -/
def Event.closes : Event J → DownId → Prop
  | .closeLink d', d => d = d'
  | _, _ => False

/-- One callback of the event loop. -/
theorem step_indexes {e : Event J} (hok : σ.indexes.Ok R) (hfree : (∃ d p, R d p) → σ.PlaceholderFree e)
    (h : step cfg σ e = some σ') :
    σ'.indexes.Ok (fun d p => ¬Event.closes e d ∧ R d p ∨ Event.adds e d p) := by
  have hmono : σ'.indexes.Ok R → (∀ d, ¬Event.closes e d) → (∀ d p, ¬Event.adds e d p) →
      σ'.indexes.Ok (fun d p => ¬Event.closes e d ∧ R d p ∨ Event.adds e d p) :=
    fun h _ hadd => ⟨h.paths, h.sids, h.found.mono (fun d p hr => (hr.resolve_right (hadd d p)).2)⟩
  have hquiet : (∀ c, e.calls c → keepsIndexes c) → σ'.indexes.Ok R :=
    fun hA => Calls.indexes_ok (step_calls h) hA hok
  have hbuilds : ∀ c : Call J, c.builds → keepsIndexes c := by
    intro c hc
    cases c <;> simp [Call.builds] at hc <;> simp [keepsIndexes, Call.parts, updateParts]
  cases e with
  | initDownstream name => exact hmono (initNode_ok hok h) (fun _ => id) (fun _ _ => id)
  | initUpstream name => exact hmono (initNode_ok hok h) (fun _ => id) (fun _ _ => id)
  | connect d =>
    refine hmono (hquiet (fun c hc => ?_)) (fun _ => id) (fun _ _ => id)
    cases c <;> simp [Event.calls, Call.connects] at hc <;> simp [keepsIndexes, Call.parts, updateParts]
  | closeLink d =>
    obtain ⟨node, -, -, h⟩ := onLink_eq h
    have h' := brokerCloseLink_ok hok h
    exact ⟨h'.paths, h'.sids, h'.found.mono (fun e p hr => hr.resolve_right id)⟩
  | removeLink d => exact hmono (hquiet (fun c hc => Or.inl ⟨d, hc⟩)) (fun _ => id) (fun _ _ => id)
  | subscribe d sub now =>
    obtain ⟨node, -, -, h⟩ := onLink_eq h
    -- a request that is not accepted changes nothing
    have hrefuse : σ' = σ → (∀ e p, ¬Event.adds (.subscribe d sub now) e p) →
        σ'.indexes.Ok (fun e p => ¬Event.closes (.subscribe d sub now) e ∧ R e p ∨
          Event.adds (.subscribe d sub now) e p) := fun he hadd => hmono (he ▸ hok) (fun _ => id) hadd
    simp only [handleSubscribe] at h
    split at h
    · rename_i path jSid hpath hsid
      split at h
      · exact hrefuse (Option.some.inj h).symm (fun e p hadd => by have := hadd.2.2.2; omega)
      · rename_i hperm
        have h' := subscribePath_ok hok (fun hR => hfree hR (by omega) path hpath jSid hsid) h
        refine ⟨h'.paths, h'.sids, h'.found.mono (fun e p hr => hr.imp And.right (fun hadd => ?_))⟩
        exact ⟨hadd.1, Option.some.inj (hadd.2.1.symm.trans hpath)⟩
    · rename_i hnone
      refine hrefuse (Option.some.inj h).symm (fun e p hadd => ?_)
      obtain ⟨j, hj⟩ := Option.isSome_iff_exists.mp hadd.2.2.1
      exact hnone p j hadd.2.1 hj
  | unsubscribe d sid =>
    obtain ⟨node, -, -, h⟩ := onLink_eq h
    exact hmono (handleUnsubscribe_ok hok h) (fun _ => id) (fun _ _ => id)
  | freeLocal n =>
    refine hmono (hquiet (fun c hc => ?_)) (fun _ => id) (fun _ _ => id)
    cases c <;> simp [Event.calls, Call.removes] at hc <;> simp [keepsIndexes, Call.parts]
  | streamUpdate st row =>
    refine hmono (hquiet (fun c hc => ?_)) (fun _ => id) (fun _ _ => id)
    cases c <;> simp [Event.calls, Call.updates] at hc <;> simp [keepsIndexes, Call.parts, updateParts]
  | nodeValue n value now => exact hmono (hquiet (fun c hc => hbuilds c hc)) (fun _ => id) (fun _ _ => id)
  | invoke n name now => exact hmono (hquiet (fun c hc => hbuilds c hc)) (fun _ => id) (fun _ _ => id)
  | publish path value now => exact hmono (hquiet (fun c hc => hbuilds c hc)) (fun _ => id) (fun _ _ => id)
  | set path value now => exact hmono (hquiet (fun c hc => hbuilds c hc)) (fun _ => id) (fun _ _ => id)
  | ack d k =>
    exact hmono (hquiet (fun c hc => by cases hc; simp [keepsIndexes, Call.parts])) (fun _ => id) (fun _ _ => id)
  | update s row =>
    exact hmono (hquiet (fun c hc => by cases hc; simp [keepsIndexes, Call.parts])) (fun _ => id) (fun _ _ => id)
  | sendOther d =>
    exact hmono (hquiet (fun c hc => by cases hc; simp [keepsIndexes, Call.parts])) (fun _ => id) (fun _ _ => id)
  | addLocal parent name =>
    exact hmono (hquiet (fun c hc => by cases hc; simp [keepsIndexes, Call.parts])) (fun _ => id) (fun _ _ => id)

/-- The log after one more event. -/
theorem resubscribed_cons {e : Event J} {log : List (Event J)} {d : DownId} {p : CString}
    (h : resubscribed (e :: log) d p = true) :
    ¬Event.closes e d ∧ resubscribed log d p = true ∨ Event.adds e d p := by
  cases e with
  | closeLink d' =>
    simp only [resubscribed, Bool.and_eq_true, decide_eq_true_eq] at h
    exact Or.inl h
  | subscribe d' sub now =>
    simp only [resubscribed, Bool.or_eq_true, Bool.and_eq_true, decide_eq_true_eq] at h
    exact h.imp (fun hr => ⟨id, hr⟩) (fun hr => ⟨hr.1.1.1, hr.1.1.2, hr.1.2, hr.2⟩)
  | _ => exact Or.inl ⟨id, h⟩

theorem started_indexes {σ : Broker J} (h : brokerInit = some σ) : σ.indexes.Ok R := by
  obtain ⟨hsub, hdnode, -⟩ := brokerInit_empty h
  have hs : ∀ s, σ.indexes.sub s = none := fun s => by simp [indexes, hsub]
  have hd : ∀ d, σ.indexes.node d = none := fun d => by simp [indexes, hdnode]
  have hnode : ∀ {d n}, σ.indexes.node d = some n → False := fun {d n} hn => by rw [hd] at hn; cases hn
  exact ⟨⟨fun _ _ _ _ hn => (hnode hn).elim, fun s k hk => by rw [hs] at hk; cases hk⟩,
    fun _ => ⟨fun _ _ _ hn => (hnode hn).elim, fun _ _ _ hn => (hnode hn).elim⟩,
    fun _ _ _ _ _ hn => (hnode hn).elim⟩

/-- The path index of every reachable state has exactly the live SubRequesters, without a condition on the
    run. -/
theorem reach_paths {ok : Broker J → Event J → Prop}
    (h : Reach (step cfg) ok (fun σ => brokerInit = some σ) σ) : σ.indexes.PathsOk := by
  have hinv := Reach.invariant (fun σ => σ.indexes.Ok (fun _ _ => False)) (fun _ => started_indexes)
    (fun σ e σ' hok _ hs => ?_) h
  · exact hinv.paths
  · have h' := step_indexes hok (fun hR => hR.elim (fun _ hR => hR.elim (fun _ => False.elim))) hs
    exact ⟨h'.paths, h'.sids, fun _ _ _ _ hr => hr.elim⟩

/-- In a run in which no subscribe request takes the entry of the placeholder sid away from another
    SubRequester, the two indexes of every requester are inverse to each other in every state. -/
theorem indexes_inverse {p : Broker J × List (Event J)}
    (h : Reach (logged (step cfg)) (fun p e => p.1.PlaceholderFree e) (fun p => started = some p) p) :
    IndexesInverse p.1 p.2 := by
  have hok : p.1.indexes.Ok (fun d q => resubscribed p.2 d q = true) := by
    refine Reach.invariant (fun p => p.1.indexes.Ok (fun d q => resubscribed p.2 d q = true))
      (fun p hp => ?_) (fun p e p' hp hfree hstep => ?_) h
    · obtain ⟨σ, hσ, rfl⟩ := Option.map_eq_some_iff.mp hp
      exact started_indexes hσ
    · obtain ⟨hs, hl⟩ := logged_eq_some.mp hstep
      have h' := step_indexes hp (fun _ => hfree) hs
      rw [hl]
      exact ⟨h'.paths, h'.sids, h'.found.mono (fun d q hr => resubscribed_cons hr)⟩
  exact inverse_of_ok hok

theorem indexes_inverse_retained : ∃ p : Broker Nat × List (Event Nat),
    (p.1.dnode.get 0).any (fun node => node.reqSubSids.get 5 = some 0 ∧ node.reqSubPaths.size = 2) = true ∧
      IndexesInverse p.1 p.2 := by
  obtain ⟨p, hp, hcheck⟩ := Reach.of_guarded (logged (step smallConfig)) (fun p e => p.1.PlaceholderFree e)
    started
    ([.initDownstream (cstr "r"), .connect 0, .subscribe 0 (readEntry "/x" 1 2) 0,
      .subscribe 0 (readEntry "/y" 2 2) 0, .closeLink 0, .connect 0, .subscribe 0 (readEntry "/x" 5 2) 0])
    (fun p => (p.1.dnode.get 0).any (fun node =>
      node.reqSubSids.get 5 = some 0 ∧ node.reqSubPaths.size = 2)) (by decide)
  exact ⟨p, hcheck, indexes_inverse hp⟩

/-- Two retained subscriptions of a requester that is back: `/x` takes the placeholder for its sid, and `/y`
    takes the entry away. -/
def placeholderRun : List (Event Nat) :=
  [.initDownstream (cstr "r"), .connect 0, .subscribe 0 (readEntry "/x" 1 2) 0,
    .subscribe 0 (readEntry "/y" 2 2) 0, .closeLink 0, .connect 0, .subscribe 0 (readEntry "/x" 4294967295 2) 0,
    .subscribe 0 (readEntry "/y" 7 2) 0]

theorem indexes_not_inverse :
    ¬∀ p : Broker Nat × List (Event Nat),
      Reach (logged (step smallConfig)) (fun _ _ => True) (fun p => started = some p) p →
      IndexesInverse p.1 p.2 := by
  intro h
  obtain ⟨p, hp, hcheck⟩ := Reach.of_eval (logged (step smallConfig)) started placeholderRun
    (fun p => resubscribed p.2 0 (cstr "/x") && (p.1.sub.get 0).any (fun req => req.reqSid = noSid) &&
      (p.1.dnode.get 0).any (fun node => node.link.isSome && node.reqSubPaths.get (cstr "/x") = some 0 &&
        node.reqSubSids.get noSid = none)) (by decide)
  simp only [Bool.and_eq_true, Option.any_eq_true, decide_eq_true_eq] at hcheck
  obtain ⟨⟨hlog, req, hs, hsid⟩, node, hd, ⟨hlink, hpath⟩, hnone⟩ := hcheck
  obtain ⟨req', hs', hget⟩ := (h p hp).found 0 node _ 0 hd hlink hlog hpath
  cases hs.symm.trans hs'
  rw [hsid, hnone] at hget
  cases hget

end Broker

end DSLink
