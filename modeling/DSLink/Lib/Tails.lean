import Mathlib.Data.List.Infix
import Mathlib.Data.List.TakeWhile

/-!
# `Lib.Tails` — searching a list from the left

A pointer into a text is the tail that begins at it. `firstTail` is the search for the first place with a
property; `FirstTail` says what the place is that it finds.

## Contents
- `firstTail`, `FirstTail`, `firstTail_eq_some`, `firstTail_eq_none`.
- `upTo`: the text before a tail.
- `takeWhile_sep`, `dropWhile_sep`, `sep_cases`: a text cut at a separator.
-/

namespace DSLink

variable {α : Type} {p : List α → Bool} {l t u : List α}

/-- The first tail with the property `p`. -/
def firstTail (p : List α → Bool) (l : List α) : Option (List α) := l.tails.find? p

/-- `t` is the tail of `l` at the first place with the property `p`. -/
structure FirstTail (p : List α → Bool) (l t : List α) : Prop where
  tail : t <:+ l
  holds : p t = true
  first : ∀ u, u <:+ l → p u = true → u <:+ t

theorem firstTail_nil : firstTail p [] = if p [] then some [] else none := by
  unfold firstTail
  cases h : p [] <;> simp [h]

theorem firstTail_cons (a : α) (l : List α) :
    firstTail p (a :: l) = if p (a :: l) then some (a :: l) else firstTail p l := by
  unfold firstTail
  rw [List.tails_cons, List.find?_cons]
  cases p (a :: l) <;> rfl

theorem firstTail_eq_none : firstTail p l = none ↔ ∀ u, u <:+ l → p u = false := by
  simp [firstTail, List.find?_eq_none, List.mem_tails]

theorem FirstTail.unique (ht : FirstTail p l t) (hu : FirstTail p l u) : t = u :=
  (hu.first t ht.tail ht.holds).eq_of_length_le (ht.first u hu.tail hu.holds).length_le

theorem FirstTail.here (h : p l = true) : FirstTail p l l := ⟨List.suffix_rfl, h, fun _ hu _ => hu⟩

theorem FirstTail.cons {a : α} (h : FirstTail p l t) (hp : p (a :: l) = false) : FirstTail p (a :: l) t := by
  refine ⟨h.tail.trans (List.suffix_cons a l), h.holds, fun u hu hpu => ?_⟩
  rcases List.suffix_cons_iff.mp hu with he | hl
  · rw [he, hp] at hpu
    cases hpu
  · exact h.first u hl hpu

theorem firstTail_spec (h : firstTail p l = some t) : FirstTail p l t := by
  induction l with
  | nil =>
    rw [firstTail_nil] at h
    by_cases hp : p [] = true
    · rw [if_pos hp] at h
      cases h
      exact .here hp
    · simp [hp] at h
  | cons a l ih =>
    rw [firstTail_cons] at h
    by_cases hp : p (a :: l) = true
    · rw [if_pos hp] at h
      cases h
      exact .here hp
    · rw [if_neg hp] at h
      exact (ih h).cons (Bool.not_eq_true _ ▸ hp)

theorem firstTail_eq_some : firstTail p l = some t ↔ FirstTail p l t := by
  refine ⟨firstTail_spec, fun h => ?_⟩
  cases hf : firstTail p l with
  | none =>
    have := firstTail_eq_none.mp hf t h.tail
    rw [h.holds] at this
    cases this
  | some u => rw [(firstTail_spec hf).unique h]

/-! ## The text before a place -/

/-- The text from `l` up to the place where its tail `t` begins. -/
def upTo (l t : List α) : List α := l.take (l.length - t.length)

@[simp] theorem upTo_nil (l : List α) : upTo l [] = l := by simp [upTo]

theorem upTo_prefix (l t : List α) : upTo l t <+: l := List.take_prefix _ _

theorem length_upTo (l t : List α) : (upTo l t).length = l.length - t.length := by
  simp only [upTo, List.length_take]
  omega

theorem upTo_left (s t : List α) : upTo (s ++ t) t = s := by
  rw [upTo, List.length_append, Nat.add_sub_cancel, List.take_left]

/-! ## Separators -/

variable [DecidableEq α] {c : α} {s seg rest : List α}

theorem takeWhile_none (h : c ∉ s) : s.takeWhile (· ≠ c) = s :=
  List.takeWhile_eq_self_iff.mpr fun _ ha => decide_eq_true (ne_of_mem_of_not_mem ha h)

theorem dropWhile_none (h : c ∉ s) : s.dropWhile (· ≠ c) = [] :=
  List.dropWhile_eq_nil_iff.mpr fun _ ha => decide_eq_true (ne_of_mem_of_not_mem ha h)

theorem takeWhile_sep (h : c ∉ seg) : (seg ++ c :: rest).takeWhile (· ≠ c) = seg := by
  rw [List.takeWhile_append_of_pos (fun a ha => decide_eq_true (ne_of_mem_of_not_mem ha h))]
  simp

theorem dropWhile_sep (h : c ∉ seg) : (seg ++ c :: rest).dropWhile (· ≠ c) = c :: rest := by
  rw [List.dropWhile_append_of_pos (fun a ha => decide_eq_true (ne_of_mem_of_not_mem ha h))]
  simp

/-- A text is split at its first separator in one way. -/
theorem sep_inj {seg' rest' : List α} (h : c ∉ seg) (h' : c ∉ seg') (heq : seg ++ c :: rest = seg' ++ c :: rest') :
    seg = seg' ∧ rest = rest' := by
  have hseg := congrArg (List.takeWhile (· ≠ c)) heq
  have hrest := congrArg (List.dropWhile (· ≠ c)) heq
  rw [takeWhile_sep h, takeWhile_sep h'] at hseg
  rw [dropWhile_sep h, dropWhile_sep h'] at hrest
  exact ⟨hseg, (List.cons.inj hrest).2⟩

/-- A text has no separator, or it is split at the first one. -/
theorem sep_cases (c : α) (s : List α) : c ∉ s ∨ ∃ seg rest, s = seg ++ c :: rest ∧ c ∉ seg := by
  by_cases h : c ∈ s
  · exact .inr (List.eq_append_cons_of_mem h)
  · exact .inl h

end DSLink
