import Mathlib.Data.List.Nodup
import Mathlib.Data.List.Lookmap
import Mathlib.Data.Option.Basic

/-!
# `Lib.AssocMap` — finite maps that remember the order of insertion

A map is the list of its entries with pairwise different keys. Setting a present key replaces its value
where it stands, setting a new key appends it, so a traversal meets the keys in the order in which they
were first set. `get`/`set`/`erase` have the usual equations; `mem_values` ties a traversal to `get`.
-/

/-- A finite map as its entries in order of insertion. -/
structure AssocMap (κ α : Type) where
  entries : List (κ × α)
  nodup : (entries.map Prod.fst).Nodup

namespace AssocMap

variable {κ α : Type}

/-- The map with no entry. -/
def empty : AssocMap κ α := ⟨[], List.nodup_nil⟩

/-- The values in the order of a traversal. -/
def values (m : AssocMap κ α) : List α := m.entries.map Prod.snd

/-- The number of entries. -/
def size (m : AssocMap κ α) : Nat := m.entries.length

variable [DecidableEq κ]

/-- The value an entry list holds for `k`. -/
def lookupIn (k : κ) : List (κ × α) → Option α
  | [] => none
  | (k', a) :: l => if k' = k then some a else lookupIn k l

/-- Replace the value of `k` where it stands, or append a new entry. -/
def setIn (k : κ) (a : α) : List (κ × α) → List (κ × α)
  | [] => [(k, a)]
  | (k', b) :: l => if k' = k then (k, a) :: l else (k', b) :: setIn k a l

/-- Drop the entry of `k`. -/
def eraseIn (k : κ) : List (κ × α) → List (κ × α)
  | [] => []
  | (k', b) :: l => if k' = k then l else (k', b) :: eraseIn k l

theorem mem_keys_setIn {k k' : κ} {a : α} {l : List (κ × α)}
    (h : k' ∈ (setIn k a l).map Prod.fst) : k' = k ∨ k' ∈ l.map Prod.fst := by
  induction l with
  | nil => simpa [setIn] using h
  | cons e l ih =>
    simp only [setIn] at h
    split at h
    · rename_i he
      simp only [List.map_cons, List.mem_cons] at h ⊢
      exact h.imp id Or.inr
    · simp only [List.map_cons, List.mem_cons] at h ⊢
      rcases h with h | h
      · exact Or.inr (Or.inl h)
      · exact (ih h).imp id Or.inr

theorem nodup_setIn {k : κ} {a : α} {l : List (κ × α)} (h : (l.map Prod.fst).Nodup) :
    ((setIn k a l).map Prod.fst).Nodup := by
  induction l with
  | nil => simp [setIn]
  | cons e l ih =>
    obtain ⟨hn, hl⟩ := List.nodup_cons.mp h
    simp only [setIn]
    split
    · rename_i he
      exact List.nodup_cons.mpr ⟨he ▸ hn, hl⟩
    · rename_i he
      refine List.nodup_cons.mpr ⟨fun hm => ?_, ih hl⟩
      rcases mem_keys_setIn hm with hk | hm
      · exact he hk
      · exact hn hm

theorem mem_eraseIn {k : κ} {e : κ × α} {l : List (κ × α)} (h : e ∈ eraseIn k l) : e ∈ l := by
  induction l with
  | nil => exact h
  | cons e' l ih =>
    simp only [eraseIn] at h
    split at h
    · exact List.mem_cons_of_mem _ h
    · rcases List.mem_cons.mp h with h | h
      · exact h ▸ List.mem_cons_self
      · exact List.mem_cons_of_mem _ (ih h)

theorem nodup_eraseIn {k : κ} {l : List (κ × α)} (h : (l.map Prod.fst).Nodup) :
    ((eraseIn k l).map Prod.fst).Nodup := by
  induction l with
  | nil => exact h
  | cons e l ih =>
    obtain ⟨hn, hl⟩ := List.nodup_cons.mp h
    simp only [eraseIn]
    split
    · exact hl
    · refine List.nodup_cons.mpr ⟨fun hm => ?_, ih hl⟩
      obtain ⟨e', he', hk⟩ := List.mem_map.mp hm
      exact hn (hk ▸ List.mem_map_of_mem (mem_eraseIn he'))

/-- The value of `k`. -/
def get (m : AssocMap κ α) (k : κ) : Option α := lookupIn k m.entries

/-- Set `k` to `a`. -/
def set (m : AssocMap κ α) (k : κ) (a : α) : AssocMap κ α :=
  ⟨setIn k a m.entries, nodup_setIn m.nodup⟩

/-- Remove `k`. -/
def erase (m : AssocMap κ α) (k : κ) : AssocMap κ α :=
  ⟨eraseIn k m.entries, nodup_eraseIn m.nodup⟩

theorem lookupIn_setIn (k k' : κ) (a : α) (l : List (κ × α)) :
    lookupIn k' (setIn k a l) = if k' = k then some a else lookupIn k' l := by
  induction l with
  | nil => simp only [setIn, lookupIn, eq_comm]
  | cons e l ih =>
    obtain ⟨k0, b⟩ := e
    by_cases h0 : k0 = k
    · subst h0
      by_cases h : k' = k0
      · simp [setIn, lookupIn, h]
      · simp [setIn, lookupIn, h, Ne.symm h]
    · by_cases h : k' = k
      · subst h
        simp only [setIn, if_neg h0, lookupIn, ih, if_true]
      · simp only [setIn, if_neg h0, lookupIn, ih, if_neg h]

/-- Writing an entry leaves a list as it is exactly if it has that entry. -/
theorem setIn_eq_self {k : κ} {a : α} {l : List (κ × α)} : setIn k a l = l ↔ lookupIn k l = some a := by
  constructor
  · intro h
    rw [← h, lookupIn_setIn, if_pos rfl]
  · intro h
    induction l with
    | nil => cases h
    | cons e l ih =>
      obtain ⟨k', b⟩ := e
      simp only [lookupIn, setIn] at h ⊢
      by_cases hk : k' = k
      · rw [if_pos hk] at h
        obtain rfl := Option.some.inj h
        rw [if_pos hk, hk]
      · rw [if_neg hk] at h
        rw [if_neg hk, ih h]

theorem lookupIn_eq_none {k : κ} {l : List (κ × α)} (h : k ∉ l.map Prod.fst) :
    lookupIn k l = none := by
  induction l with
  | nil => rfl
  | cons e l ih =>
    simp only [List.map_cons, List.mem_cons, not_or] at h
    simp only [lookupIn, if_neg (Ne.symm h.1), ih h.2]

theorem lookupIn_eraseIn {k k' : κ} {l : List (κ × α)} (hn : (l.map Prod.fst).Nodup) :
    lookupIn k' (eraseIn k l) = if k' = k then none else lookupIn k' l := by
  induction l with
  | nil => simp [eraseIn, lookupIn]
  | cons e l ih =>
    obtain ⟨k0, b⟩ := e
    obtain ⟨h0n, hl⟩ := List.nodup_cons.mp hn
    by_cases h0 : k0 = k
    · subst h0
      by_cases h : k' = k0
      · subst h
        simp only [eraseIn, if_true]
        exact lookupIn_eq_none h0n
      · simp [eraseIn, lookupIn, h, Ne.symm h]
    · by_cases h : k' = k
      · subst h
        simp only [eraseIn, if_neg h0, lookupIn, ih hl, if_true]
      · simp only [eraseIn, if_neg h0, lookupIn, ih hl, if_neg h]

theorem lookupIn_eq_some {k : κ} {a : α} {l : List (κ × α)} (hn : (l.map Prod.fst).Nodup) :
    lookupIn k l = some a ↔ (k, a) ∈ l := by
  induction l with
  | nil => simp [lookupIn]
  | cons e l ih =>
    obtain ⟨k0, b⟩ := e
    obtain ⟨h0n, hl⟩ := List.nodup_cons.mp hn
    by_cases h : k0 = k
    · subst h
      constructor
      · intro hb
        simp only [lookupIn, if_true, Option.some.injEq] at hb
        exact hb ▸ List.mem_cons_self
      · intro hm
        rcases List.mem_cons.mp hm with hm | hm
        · cases hm; simp [lookupIn]
        · exact absurd (List.mem_map_of_mem (f := Prod.fst) hm) h0n
    · simp only [lookupIn, if_neg h, ih hl, List.mem_cons, Prod.mk.injEq]
      exact ⟨Or.inr, fun hm => hm.resolve_left (fun he => h he.1.symm)⟩

@[simp] theorem get_empty (k : κ) : (empty : AssocMap κ α).get k = none := rfl

theorem get_set (m : AssocMap κ α) (k k' : κ) (a : α) :
    (m.set k a).get k' = if k' = k then some a else m.get k' := lookupIn_setIn k k' a m.entries

@[simp] theorem get_set_self (m : AssocMap κ α) (k : κ) (a : α) : (m.set k a).get k = some a := by
  simp [get_set]

theorem get_set_ne {m : AssocMap κ α} {k k' : κ} {a : α} (h : k' ≠ k) :
    (m.set k a).get k' = m.get k' := by simp [get_set, h]

theorem get_erase (m : AssocMap κ α) (k k' : κ) :
    (m.erase k).get k' = if k' = k then none else m.get k' := lookupIn_eraseIn m.nodup

@[simp] theorem get_erase_self (m : AssocMap κ α) (k : κ) : (m.erase k).get k = none := by
  simp [get_erase]

theorem get_erase_ne {m : AssocMap κ α} {k k' : κ} (h : k' ≠ k) :
    (m.erase k).get k' = m.get k' := by simp [get_erase, h]

/-- Setting a key to what it has changes nothing. -/
theorem set_eq_self {m : AssocMap κ α} {k : κ} {a : α} (h : m.get k = some a) : m.set k a = m := by
  have hentries : setIn k a m.entries = m.entries := setIn_eq_self.mpr h
  cases m
  simpa [set] using hentries

/-- What was set is forgotten when the key is removed. -/
theorem erase_set_self (m : AssocMap κ α) (k : κ) (a : α) : (m.set k a).erase k = m.erase k := by
  have hentries : ∀ l : List (κ × α), eraseIn k (setIn k a l) = eraseIn k l := by
    intro l
    induction l with
    | nil => simp [setIn, eraseIn]
    | cons e l ih =>
      simp only [setIn, eraseIn]
      split
      · simp only [eraseIn, if_true]
      · rename_i he
        simp only [eraseIn, if_neg he, ih]
  have heq := hentries m.entries
  cases m
  simpa [set, erase] using heq

theorem erase_of_none {m : AssocMap κ α} {k : κ} (h : m.get k = none) : m.erase k = m := by
  have hentries : ∀ l : List (κ × α), lookupIn k l = none → eraseIn k l = l := by
    intro l
    induction l with
    | nil => exact fun _ => rfl
    | cons e l ih =>
      intro hl
      simp only [lookupIn, eraseIn] at hl ⊢
      split at hl
      · cases hl
      · rename_i he
        rw [if_neg he, ih hl]
  have heq := hentries m.entries h
  cases m
  simpa [erase] using heq

/-- The entries whose keys satisfy `p`. -/
def filterKeys (m : AssocMap κ α) (p : κ → Bool) : AssocMap κ α :=
  ⟨m.entries.filter (fun e => p e.1), m.nodup.sublist (List.filter_sublist.map Prod.fst)⟩

theorem get_filterKeys (m : AssocMap κ α) (p : κ → Bool) (k : κ) :
    (m.filterKeys p).get k = if p k then m.get k else none := by
  refine Option.ext fun a => ?_
  have hmem : (k, a) ∈ (m.filterKeys p).entries ↔ (k, a) ∈ m.entries ∧ p k = true := List.mem_filter
  rw [(lookupIn_eq_some m.nodup).symm, show (lookupIn k m.entries) = m.get k from rfl] at hmem
  rw [show (m.filterKeys p).get k = some a ↔ (k, a) ∈ (m.filterKeys p).entries from
    lookupIn_eq_some (m.filterKeys p).nodup, hmem]
  by_cases hk : p k = true <;> simp [hk]

/-- A key that survives an erase was there before and is not the erased one. -/
theorem get_erase_eq_some {m : AssocMap κ α} {k k' : κ} {a : α} :
    (m.erase k).get k' = some a ↔ k' ≠ k ∧ m.get k' = some a := by
  rw [get_erase]
  by_cases h : k' = k <;> simp [h]

theorem mem_entries {m : AssocMap κ α} {k : κ} {a : α} :
    (k, a) ∈ m.entries ↔ m.get k = some a := (lookupIn_eq_some m.nodup).symm

/-- A traversal visits exactly the values found under some key. -/
theorem mem_values {m : AssocMap κ α} {a : α} : a ∈ m.values ↔ ∃ k, m.get k = some a := by
  unfold values
  constructor
  · intro h
    obtain ⟨⟨k, b⟩, he, rfl⟩ := List.mem_map.mp h
    exact ⟨k, mem_entries.mp he⟩
  · rintro ⟨k, h⟩
    exact List.mem_map.mpr ⟨(k, a), mem_entries.mpr h, rfl⟩

/-- A value that has only one key is visited once. -/
theorem nodup_values {m : AssocMap κ α} (h : ∀ k k' a, m.get k = some a → m.get k' = some a → k = k') :
    m.values.Nodup := by
  unfold values
  apply List.Nodup.map_on ?_ (List.Nodup.of_map _ m.nodup)
  rintro ⟨k, a⟩ he ⟨k', a'⟩ he' rfl
  exact congrArg (·, a) (h k k' a (mem_entries.mp he) (mem_entries.mp he'))

theorem size_eq_zero {m : AssocMap κ α} : m.size = 0 ↔ ∀ k, m.get k = none := by
  unfold size
  constructor
  · intro h k
    have hnil : m.entries = [] := List.length_eq_zero_iff.mp h
    simp only [get, hnil, lookupIn]
  · intro h
    refine List.length_eq_zero_iff.mpr (List.eq_nil_iff_forall_not_mem.mpr ?_)
    rintro ⟨k, a⟩ he
    rw [mem_entries, h k] at he
    exact absurd he (by simp)

end AssocMap
