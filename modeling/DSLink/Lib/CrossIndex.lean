import Mathlib.Logic.Function.Basic

/-!
# `Lib.CrossIndex` — objects that name the table entries under which they are filed

An object names the keys under which it should be found, and a table maps each key to one object at most. The
two are kept by different code, so they can drift apart in two ways.

* `FiledBut names table X`: what is named is filed. Only for the pairs in `X` the entry may be missing.
* `ListedBut names table X`: what is filed is named. Only the pairs in `X` may be entries without a name.

With an empty `X` in both, names and table are inverse to each other (`filed_iff`). A nonempty `X` holds the
pairs that a step has opened or closed on one side and not yet on the other.
-/

namespace CrossIndex

variable {ι κ : Type} {names names' : ι → κ → Prop} {table : κ → Option ι} {X X' : ι → κ → Prop} {s t : ι} {k : κ}

/-- What is named is filed, or missing as one of `X`. -/
def FiledBut (names : ι → κ → Prop) (table : κ → Option ι) (X : ι → κ → Prop) : Prop :=
  ∀ t k, names t k → table k = some t ∨ X t k ∧ table k = none

/-- What is filed is named, or one of `X`. -/
def ListedBut (names : ι → κ → Prop) (table : κ → Option ι) (X : ι → κ → Prop) : Prop :=
  ∀ t k, table k = some t → names t k ∨ X t k

/-- No pair. -/
def nowhere (_ : ι) (_ : κ) : Prop := False

theorem filed_iff (hf : FiledBut names table nowhere) (hl : ListedBut names table nowhere) (t : ι) (k : κ) :
    names t k ↔ table k = some t :=
  ⟨fun h => (hf t k h).elim id (fun hx => hx.1.elim), fun h => (hl t k h).elim id False.elim⟩

namespace FiledBut

theorem filed (h : FiledBut names table X) (ht : names t k) (hx : ¬X t k) : table k = some t :=
  (h t k ht).resolve_right (fun hk => hx hk.1)

/-- Fewer names are still filed, and a pair that is not named needs no exception. -/
theorem mono (h : FiledBut names table X) (hn : ∀ t k, names' t k → names t k)
    (hx : ∀ t k, names' t k → X t k → table k = none → X' t k) : FiledBut names' table X' := by
  intro t k ht
  apply (h t k (hn t k ht)).imp id
  rintro ⟨hX, hk⟩
  exact ⟨hx t k ht hX hk, hk⟩

/-- Another object that names a key of `s` is missing there. -/
theorem only (h : FiledBut names table X) (hs : names s k) (ht : names t k) (hts : t ≠ s) : X t k := by
  rcases h t k ht with hk | ⟨hx, -⟩
  · rcases h s k hs with hk' | ⟨-, hk'⟩
    · exact absurd (Option.some.inj (hk.symm.trans hk')) hts
    · exact absurd (hk.symm.trans hk') (by simp)
  · exact hx

variable [DecidableEq κ]

/-- Take an entry away. Whoever names it is missing now. -/
theorem erase (h : FiledBut names table X) (hn : ∀ t l, names' t l → names t l)
    (hk : ∀ t, names' t k → X' t k) (hx : ∀ t l, names' t l → X t l → X' t l) :
    FiledBut names' (Function.update table k none) X' := by
  intro t l ht
  by_cases hl : l = k
  · subst hl
    exact .inr ⟨hk t ht, Function.update_self ..⟩
  · rw [Function.update_of_ne hl]
    exact h.mono hn (fun t k hk' hX _ => hx t k hk' hX) t l ht

/-- Take an entry of `s` away, while `s` may be missing. -/
theorem erase_own (h : FiledBut names table X) (hs : names s k) (hx : ∀ l, names s l → X s l) :
    FiledBut names (Function.update table k none) X := by
  refine h.erase (fun _ _ ht => ht) (fun t ht => ?_) (fun _ _ _ hX => hX)
  by_cases hts : t = s
  · exact hts ▸ hx k hs
  · exact h.only hs ht hts

/-- File `s` under a key that nobody else names. -/
theorem insert (h : FiledBut names table X) (hn : ∀ t l, l ≠ k → names' t l → names t l)
    (hk : ∀ t, names' t k → t = s) (hx : ∀ t l, names' t l → X t l → l ≠ k → X' t l) :
    FiledBut names' (Function.update table k (some s)) X' := by
  intro t l ht
  by_cases hl : l = k
  · subst hl
    rw [hk t ht]
    exact .inl (Function.update_self ..)
  · rw [Function.update_of_ne hl]
    apply (h t l (hn t l hl ht)).imp id
    rintro ⟨hX, hnone⟩
    exact ⟨hx t l ht hX hl, hnone⟩

end FiledBut

namespace ListedBut

theorem mono (h : ListedBut names table X) (hn : ∀ t k, table k = some t → names t k → names' t k ∨ X' t k)
    (hx : ∀ t k, X t k → X' t k) : ListedBut names' table X' := by
  intro t k hk
  rcases h t k hk with ht | hX
  · exact hn t k hk ht
  · exact .inr (hx t k hX)

variable [DecidableEq κ]

theorem erase (h : ListedBut names table X) (hn : ∀ t l, l ≠ k → names t l → names' t l ∨ X' t l)
    (hx : ∀ t l, l ≠ k → X t l → X' t l) : ListedBut names' (Function.update table k none) X' := by
  intro t l hl
  by_cases hlk : l = k
  · subst hlk
    rw [Function.update_self] at hl
    cases hl
  · rw [Function.update_of_ne hlk] at hl
    rcases h t l hl with ht | hX
    · exact hn t l hlk ht
    · exact .inr (hx t l hlk hX)

theorem insert (h : ListedBut names table X) (hn : ∀ t l, l ≠ k → names t l → names' t l ∨ X' t l)
    (hx : ∀ t l, l ≠ k → X t l → X' t l) (hs : names' s k) :
    ListedBut names' (Function.update table k (some s)) X' := by
  intro t l hl
  by_cases hlk : l = k
  · subst hlk
    rw [Function.update_self] at hl
    exact .inl (Option.some.inj hl ▸ hs)
  · rw [Function.update_of_ne hlk] at hl
    rcases h t l hl with ht | hX
    · exact hn t l hlk ht
    · exact .inr (hx t l hlk hX)

end ListedBut

end CrossIndex
