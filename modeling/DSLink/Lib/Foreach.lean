import DSLink.Lib.AssocMap
import DSLink.Lib.Run

/-!
# `Lib.Foreach` — a loop over the entries of a map that its body may change

Such a loop stands on an entry while its body runs and reads the next entry out of it afterwards. A body that removes
the entry leaves the loop on freed memory, which is no result here.

## Contents
- `AssocMap.after`, `foreach`: the loop.
- `foreach_eq_foldlM`: bodies that leave the map alone visit every value once.
- `foreach_removed`: a first body that removes its entry.
-/

namespace AssocMap

variable {κ α : Type} [DecidableEq κ]

/-- The key after `k`, which has to be there, if it is not the last one. -/
def afterIn (k : κ) : List (κ × α) → Option (Option κ)
  | [] => none
  | (k', _) :: l => if k' = k then some (l.head?.map Prod.fst) else afterIn k l

def after (m : AssocMap κ α) (k : κ) : Option (Option κ) := afterIn k m.entries

def first (m : AssocMap κ α) : Option κ := m.entries.head?.map Prod.fst

theorem afterIn_eq_none {k : κ} {l : List (κ × α)} (h : lookupIn k l = none) : afterIn k l = none := by
  induction l with
  | nil => rfl
  | cons e l ih =>
    obtain ⟨k', a⟩ := e
    by_cases hk : k' = k
    · simp only [lookupIn, if_pos hk] at h
      cases h
    · rw [lookupIn, if_neg hk] at h
      rw [afterIn, if_neg hk]
      exact ih h

theorem afterIn_append {k : κ} {a : α} {l l' : List (κ × α)} (h : k ∉ l.map Prod.fst) :
    afterIn k (l ++ (k, a) :: l') = some (l'.head?.map Prod.fst) := by
  induction l with
  | nil => simp [afterIn]
  | cons e l ih =>
    obtain ⟨hne, hl⟩ := not_or.mp (fun hk => h (List.mem_cons.mpr hk))
    rw [List.cons_append, afterIn, if_neg (Ne.symm hne)]
    exact ih hl

theorem lookupIn_append {k : κ} {a : α} {l l' : List (κ × α)} (h : k ∉ l.map Prod.fst) :
    lookupIn k (l ++ (k, a) :: l') = some a := by
  induction l with
  | nil => simp [lookupIn]
  | cons e l ih =>
    obtain ⟨hne, hl⟩ := not_or.mp (fun hk => h (List.mem_cons.mpr hk))
    rw [List.cons_append, lookupIn, if_neg (Ne.symm hne)]
    exact ih hl

end AssocMap

section

variable {σ κ α : Type} [DecidableEq κ]

/-- The loop from the entry of a key on. -/
def foreachFrom (map : σ → Option (AssocMap κ α)) (body : σ → α → Option σ) : Nat → σ → Option κ → Option σ
  | _, s, none => some s
  | 0, _, some _ => none
  | fuel + 1, s, some k => do
    let a ← (← map s).get k
    let s ← body s a
    let next ← (← map s).after k
    foreachFrom map body fuel s next

/-- The loop over a map of the state. A body that adds no entry needs no more rounds than there are entries. -/
def foreach (map : σ → Option (AssocMap κ α)) (body : σ → α → Option σ) (s : σ) : Option σ := do
  let m ← map s
  foreachFrom map body m.size s m.first

variable {map : σ → Option (AssocMap κ α)} {body : σ → α → Option σ} {m : AssocMap κ α} {s : σ}

theorem foreachFrom_eq_foldlM (hbody : ∀ s s', ∀ a ∈ m.values, map s = some m → body s a = some s' → map s' = some m)
    {l l' : List (κ × α)} (hl : m.entries = l ++ l') (hs : map s = some m) :
    foreachFrom map body l'.length s (l'.head?.map Prod.fst) = (l'.map Prod.snd).foldlM body s := by
  induction l' generalizing l s with
  | nil => rfl
  | cons e l' ih =>
    obtain ⟨k, a⟩ := e
    have hnew : k ∉ l.map Prod.fst := by
      intro hk
      have hnodup := m.nodup
      rw [hl, List.map_append, List.map_cons, List.nodup_append] at hnodup
      exact hnodup.2.2 k hk k List.mem_cons_self rfl
    have hget : m.get k = some a := by
      rw [AssocMap.get, hl]
      exact AssocMap.lookupIn_append hnew
    have hafter : m.after k = some (l'.head?.map Prod.fst) := by
      rw [AssocMap.after, hl]
      exact AssocMap.afterIn_append hnew
    simp only [List.length_cons, List.head?_cons, Option.map_some, foreachFrom, hs, hget, Option.bind_eq_bind,
      Option.bind_some, List.map_cons, List.foldlM_cons]
    cases hrun : body s a with
    | none => rfl
    | some s' =>
      have hs' : map s' = some m := hbody s s' a (AssocMap.mem_values.mpr ⟨k, hget⟩) hs hrun
      simp only [Option.bind_some, hs', hafter]
      exact ih (l := l ++ [(k, a)]) (by rw [hl, List.append_assoc]; rfl) hs'

/-- Bodies that leave the map alone visit every value once. -/
theorem foreach_eq_foldlM (hs : map s = some m)
    (hbody : ∀ s s', ∀ a ∈ m.values, map s = some m → body s a = some s' → map s' = some m) :
    foreach map body s = m.values.foldlM body s := by
  rw [foreach, hs]
  exact foreachFrom_eq_foldlM hbody (l := []) rfl hs

/-- A loop over no entry does nothing. -/
theorem foreach_empty (hs : map s = some m) (hm : m.size = 0) : foreach map body s = some s := by
  have hnil : m.entries = [] := List.eq_nil_of_length_eq_zero hm
  simp only [foreach, hs, Option.bind_eq_bind, Option.bind_some, AssocMap.first, hnil, hm]
  rfl

/-- The first body removes the entry that the loop stands on, or fails. -/
theorem foreach_removed (hs : map s = some m) (hm : m.size ≠ 0)
    (hbody : ∀ k a s' m', m.get k = some a → body s a = some s' → map s' = some m' → m'.get k = none) :
    foreach map body s = none := by
  cases hl : m.entries with
  | nil => exact absurd (by rw [AssocMap.size, hl]; rfl) hm
  | cons e l =>
    obtain ⟨k, a⟩ := e
    have hget : m.get k = some a := by simp [AssocMap.get, hl, AssocMap.lookupIn]
    have hfirst : m.first = some k := by simp [AssocMap.first, hl]
    have hsize : m.size = l.length + 1 := by simp [AssocMap.size, hl]
    simp only [foreach, hs, hfirst, hsize, foreachFrom, hget, Option.bind_eq_bind, Option.bind_some]
    cases hrun : body s a with
    | none => rfl
    | some s' =>
      cases hm' : map s' with
      | none => simp only [Option.bind_some, hm', Option.bind_none]
      | some m' =>
        have hafter : m'.after k = none := AssocMap.afterIn_eq_none (hbody k a s' m' hget hrun hm')
        simp only [Option.bind_some, hm', hafter, Option.bind_none]

end
