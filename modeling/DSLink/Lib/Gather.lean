import DSLink.Lib.AssocMap

/-!
# `Lib.Gather` — loops that fill a map from another one

A loop over the entries of a map that sets at most one value under each key, and may fail. On a map that has none of
the keys the result is the entries in the same order (`foldlM_setIn`), so what is under a key of the result depends
only on what was under it in the source (`lookupIn_gather`).

## Contents

* `AssocMap.gather` — the entries the loop keeps.
* `AssocMap.foldlM_setIn`, `AssocMap.foldlM_set` — the loop, as `gather`.
* `AssocMap.gather_eq_self` — when a loop after a loop gives the map back.
-/

namespace AssocMap

variable {κ α β : Type} [DecidableEq κ]

/-- What `f` keeps of the entries, with the new value of each. -/
def gather (f : κ → α → Option (Option β)) : List (κ × α) → Option (List (κ × β))
  | [] => some []
  | (k, a) :: l => (f k a).bind fun b => (gather f l).map fun rest => (b.elim [] fun b => [(k, b)]) ++ rest

variable {f : κ → α → Option (Option β)} {k : κ} {a : α} {l : List (κ × α)} {r : List (κ × β)}

theorem setIn_of_notMem (h : k ∉ l.map Prod.fst) : setIn k a l = l ++ [(k, a)] := by
  induction l with
  | nil => rfl
  | cons e l ih =>
    rw [List.map_cons, List.mem_cons, not_or] at h
    show (if e.1 = k then _ else e :: setIn k a l) = _
    rw [if_neg (Ne.symm h.1), ih h.2]
    rfl

theorem eraseIn_of_notMem (h : k ∉ l.map Prod.fst) : eraseIn k l = l := by
  induction l with
  | nil => rfl
  | cons e l ih =>
    rw [List.map_cons, List.mem_cons, not_or] at h
    show (if e.1 = k then l else e :: eraseIn k l) = _
    rw [if_neg (Ne.symm h.1), ih h.2]

theorem eraseIn_setIn : eraseIn k (setIn k a l) = eraseIn k l := by
  induction l with
  | nil => simp [setIn, eraseIn]
  | cons e l ih =>
    obtain ⟨k', b⟩ := e
    by_cases hk : k' = k
    · simp [setIn, eraseIn, hk]
    · simp [setIn, eraseIn, hk, ih]

omit [DecidableEq κ] in
theorem gather_cons (h : gather f ((k, a) :: l) = some r) :
    ∃ b rest, f k a = some b ∧ gather f l = some rest ∧ r = (b.elim [] fun b => [(k, b)]) ++ rest := by
  obtain ⟨b, hb, h⟩ := Option.bind_eq_some_iff.mp h
  obtain ⟨rest, hrest, rfl⟩ := Option.map_eq_some_iff.mp h
  exact ⟨b, rest, hb, hrest, rfl⟩

omit [DecidableEq κ] in
theorem mem_keys_gather (h : gather f l = some r) (hk : k ∈ r.map Prod.fst) : k ∈ l.map Prod.fst := by
  induction l generalizing r with
  | nil =>
    obtain rfl := Option.some.inj h
    exact hk
  | cons e l ih =>
    obtain ⟨b, rest, -, hrest, rfl⟩ := gather_cons h
    rw [List.map_append, List.mem_append] at hk
    rw [List.map_cons, List.mem_cons]
    rcases hk with hk | hk
    · cases b with
      | none => cases hk
      | some b => exact .inl (by simpa using hk)
    · exact .inr (ih hrest hk)

omit [DecidableEq κ] in
theorem nodup_gather (h : gather f l = some r) (hl : (l.map Prod.fst).Nodup) : (r.map Prod.fst).Nodup := by
  induction l generalizing r with
  | nil =>
    obtain rfl := Option.some.inj h
    exact List.nodup_nil
  | cons e l ih =>
    obtain ⟨b, rest, -, hrest, rfl⟩ := gather_cons h
    obtain ⟨hn, hl⟩ := List.nodup_cons.mp hl
    cases b with
    | none => exact ih hrest hl
    | some b => exact List.nodup_cons.mpr ⟨fun hk => hn (mem_keys_gather hrest hk), ih hrest hl⟩

/-- What is under a key comes from what was under it. -/
theorem lookupIn_gather (h : gather f l = some r) (hl : (l.map Prod.fst).Nodup) :
    lookupIn k r = (lookupIn k l).bind fun a => (f k a).join := by
  induction l generalizing r with
  | nil =>
    obtain rfl := Option.some.inj h
    rfl
  | cons e l ih =>
    obtain ⟨k', a⟩ := e
    obtain ⟨b, rest, hb, hrest, rfl⟩ := gather_cons h
    obtain ⟨hn, hl⟩ := List.nodup_cons.mp hl
    by_cases hk : k' = k
    · subst hk
      have hnone : lookupIn k' rest = none := lookupIn_eq_none (fun hm => hn (mem_keys_gather hrest hm))
      cases b with
      | none => simp [lookupIn, hnone, hb]
      | some b => simp [lookupIn, hb]
    · cases b with
      | none => simp [lookupIn, hk, ih hrest hl]
      | some b => simp [lookupIn, hk, ih hrest hl]

/-- The loop that sets what `f` keeps, on a map without these keys. -/
theorem foldlM_setIn {out : List (κ × β)} (hl : (l.map Prod.fst).Nodup)
    (hout : ∀ k ∈ l.map Prod.fst, k ∉ out.map Prod.fst) :
    l.foldlM (fun out e => (f e.1 e.2).map fun b => b.elim out fun b => setIn e.1 b out) out =
      (gather f l).map fun r => out ++ r := by
  induction l generalizing out with
  | nil =>
    show some out = some (out ++ [])
    rw [List.append_nil]
  | cons e l ih =>
    obtain ⟨k, a⟩ := e
    obtain ⟨hn, hl⟩ := List.nodup_cons.mp hl
    have hk : k ∉ out.map Prod.fst := hout k List.mem_cons_self
    have hrest : ∀ k' ∈ l.map Prod.fst, k' ∉ out.map Prod.fst := fun k' hk' => hout k' (List.mem_cons_of_mem _ hk')
    rw [List.foldlM_cons, gather]
    show Option.bind _ _ = _
    cases hf : f k a with
    | none => simp
    | some b =>
      cases b with
      | none =>
        simp only [Option.map_some, Option.bind_some, Option.elim_none, ih hl hrest, Option.map_map]
        rfl
      | some b =>
        have hout' : ∀ k' ∈ l.map Prod.fst, k' ∉ (setIn k b out).map Prod.fst := by
          intro k' hk' hm
          rcases mem_keys_setIn hm with rfl | hm
          · exact hn hk'
          · exact hrest k' hk' hm
        simp only [Option.map_some, Option.bind_some, Option.elim_some, ih hl hout', Option.map_map]
        apply Option.map_congr
        intro r _
        simp only [Function.comp, setIn_of_notMem hk, List.append_assoc]

theorem foldlM_setIn_nil (hl : (l.map Prod.fst).Nodup) :
    l.foldlM (fun out e => (f e.1 e.2).map fun b => b.elim out fun b => setIn e.1 b out) [] = gather f l := by
  rw [foldlM_setIn hl (fun _ _ => List.not_mem_nil)]
  simp only [List.nil_append, Option.map_id']

/-- The same loop on maps. -/
theorem foldlM_set {m : AssocMap κ β} (hl : (l.map Prod.fst).Nodup)
    (hm : ∀ k ∈ l.map Prod.fst, k ∉ m.entries.map Prod.fst) :
    (l.foldlM (fun m e => (f e.1 e.2).map fun b => b.elim m fun b => m.set e.1 b) m).map entries =
      (gather f l).map fun r => m.entries ++ r := by
  rw [← foldlM_setIn hl hm]
  clear hl hm
  induction l generalizing m with
  | nil => rfl
  | cons e l ih =>
    rw [List.foldlM_cons, List.foldlM_cons]
    cases hf : f e.1 e.2 with
    | none => rfl
    | some b =>
      cases b with
      | none => exact ih
      | some b => exact ih

theorem foldlM_set_empty (hl : (l.map Prod.fst).Nodup) :
    (l.foldlM (fun m e => (f e.1 e.2).map fun b => b.elim m fun b => m.set e.1 b) empty).map entries = gather f l := by
  rw [foldlM_set hl (fun _ _ => List.not_mem_nil)]
  simp only [empty, List.nil_append, Option.map_id']

omit [DecidableEq κ] in
theorem gather_append {l' : List (κ × α)} :
    gather f (l ++ l') = (gather f l).bind fun r => (gather f l').map fun r' => r ++ r' := by
  induction l with
  | nil => simp [gather]
  | cons e l ih =>
    obtain ⟨k, a⟩ := e
    rw [List.cons_append, gather, gather, ih]
    cases f k a with
    | none => rfl
    | some b => cases gather f l <;> simp [Function.comp_def]

omit [DecidableEq κ] in
/-- A loop that keeps every entry, and one that puts each back. -/
theorem gather_eq_self {g : κ → β → Option (Option α)}
    (h : ∀ k a, (k, a) ∈ l → ∃ b, f k a = some (some b) ∧ g k b = some (some a)) :
    ∃ r, gather f l = some r ∧ gather g r = some l := by
  induction l with
  | nil => exact ⟨[], rfl, rfl⟩
  | cons e l ih =>
    obtain ⟨k, a⟩ := e
    obtain ⟨b, hb, ha⟩ := h k a List.mem_cons_self
    obtain ⟨r, hr, hl⟩ := ih (fun k a he => h k a (List.mem_cons_of_mem _ he))
    refine ⟨(k, b) :: r, ?_, ?_⟩
    · simp [gather, hb, hr]
    · simp [gather, ha, hl]

end AssocMap
