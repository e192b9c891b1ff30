import Mathlib.Data.List.Basic

/-!
# `Lib.Access` — accesses to objects that may be freed

A trace lists what a piece of code does to objects in the order in which it does it. An object is used after it was
freed if some use comes behind a free of it. A trace that does not free the object is fine whatever it uses, and one
in which every free is followed by a use is fine only then.

## Contents
- `Access`, `UsedAfterFree`.
- `not_usedAfterFree`, `usedAfterFree_iff_mem`; `mem_flatten_mapM`: the accesses of a loop.
-/

/-- What is done to an object. -/
inductive Access (α : Type)
  | use (a : α)
  | free (a : α)
  deriving DecidableEq

section Access

variable {α : Type} {a : α} {t t' : List (Access α)}

/-- Behind some free of the object comes a use. -/
def UsedAfterFree (a : α) (t : List (Access α)) : Prop := ∃ pre post, t = pre ++ .free a :: post ∧ .use a ∈ post

theorem not_usedAfterFree (h : .free a ∉ t) : ¬ UsedAfterFree a t := by
  rintro ⟨pre, post, rfl, -⟩
  exact h (List.mem_append_right _ List.mem_cons_self)

/-- A use at the end makes every free before it wrong. -/
theorem usedAfterFree_of_mem (h : .free a ∈ t) (h' : .use a ∈ t') : UsedAfterFree a (t ++ t') := by
  obtain ⟨pre, post, rfl⟩ := List.append_of_mem h
  refine ⟨pre, post ++ t', ?_, List.mem_append_right _ h'⟩
  rw [List.append_assoc, List.cons_append]

/-- Where the frees are followed by a use and nothing is freed behind it, no use after a free means no free. -/
theorem usedAfterFree_iff_mem (huse : .use a ∈ t') (hfree : .free a ∉ t') :
    UsedAfterFree a (t ++ t') ↔ .free a ∈ t := by
  constructor
  · intro h
    by_contra hno
    apply not_usedAfterFree ?_ h
    intro hmem
    exact (List.mem_append.mp hmem).elim hno hfree
  · exact fun h => usedAfterFree_of_mem h huse

/-- The accesses of a loop are those of its rounds. -/
theorem mem_flatten_mapM {β γ : Type} {f : β → Option (List γ)} {l : List β} {ts : List (List γ)} {c : γ}
    (h : l.mapM f = some ts) : c ∈ ts.flatten ↔ ∃ b ∈ l, ∃ t, f b = some t ∧ c ∈ t := by
  induction l generalizing ts with
  | nil =>
    cases h
    simp
  | cons b l ih =>
    simp only [List.mapM_cons, Option.bind_eq_bind, Option.bind_eq_some_iff] at h
    obtain ⟨t, ht, ts', hts, h⟩ := h
    cases h
    rw [List.flatten_cons, List.mem_append, ih hts]
    simp [ht]

end Access
