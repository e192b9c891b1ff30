import Mathlib.Data.List.Basic
import DSLink.Lib.Heap

/-!
# `Lib.Linked` — doubly linked lists over addresses

`Linked view l` says that the objects at the addresses `l` are linked in this order: each one points back to the one
before it and on to the one after it, with `none` at both ends. `none` is NULL for a list that ends there and the
head for a circular one. `view` gives the two links of an object and hides everything else it has.

## Contents

* `Linked`, and that it looks at the objects of the list only.
* `Linked.snoc` — an object is linked in behind the last one.
* `Linked.unlink` — an object is taken out.
* `Heap.relink` — two neighbours are linked to each other.
-/

/-- The two links of an object. -/
structure Links where
  prev : Option Nat
  next : Option Nat

/-- The objects at the addresses of the list are linked in its order. -/
def Linked (view : Nat → Option Links) (l : List Nat) : Prop :=
  ∀ l1 n l2, l = l1 ++ n :: l2 → view n = some ⟨l1.getLast?, l2.head?⟩

namespace Linked

variable {view view' : Nat → Option Links} {l l1 l2 : List Nat} {n : Nat}

theorem nil : Linked view [] := by
  intro l1 n l2 h
  exact absurd h (by simp)

theorem congr (h : Linked view l) (hv : ∀ n ∈ l, view' n = view n) : Linked view' l := by
  intro l1 n l2 hl
  rw [hv n (by simp [hl])]
  exact h l1 n l2 hl

/-- The first object. -/
theorem first (h : Linked view (n :: l)) : view n = some ⟨none, l.head?⟩ := h [] n l rfl

theorem single (h : view n = some ⟨none, none⟩) : Linked view [n] := by
  intro l1 m l2 hl
  obtain ⟨rfl, hl⟩ | ⟨l1', rfl, hl⟩ := List.cons_eq_append_iff.mp hl
  · obtain ⟨rfl, rfl⟩ := List.cons.inj hl
    exact h
  · exact absurd hl (by simp)

/-- In a list without repetitions the last object is where its address stands. -/
theorem getLast?_eq_some_iff (hnodup : (l1 ++ n :: l2).Nodup) : (l1 ++ n :: l2).getLast? = some n ↔ l2 = [] := by
  constructor
  · intro hlast
    rcases List.eq_nil_or_concat l2 with rfl | ⟨l', m, rfl⟩
    · rfl
    · rw [List.concat_eq_append] at hlast hnodup
      have hm : m = n := by
        rw [show l1 ++ n :: (l' ++ [m]) = (l1 ++ n :: l') ++ [m] by simp, List.getLast?_concat] at hlast
        exact Option.some.inj hlast
      rw [hm] at hnodup
      simp [List.nodup_append] at hnodup
  · rintro rfl
    simp

/-- An object that is linked in behind the last one. -/
theorem snoc (h : Linked view l) (hnodup : (l ++ [n]).Nodup) (hnew : view' n = some ⟨l.getLast?, none⟩)
    (hold : ∀ m ∈ l, view' m = if l.getLast? = some m then (view m).map fun x => { x with next := some n } else view m) :
    Linked view' (l ++ [n]) := by
  intro l1 m l2 hl
  rcases List.eq_nil_or_concat l2 with rfl | ⟨l2', k, rfl⟩
  · obtain ⟨rfl, hm⟩ := List.append_inj' hl rfl
    obtain rfl := (List.cons.inj hm).1
    exact hnew
  · rw [List.concat_eq_append, ← List.cons_append, ← List.append_assoc] at hl
    obtain ⟨hl', hk⟩ := List.append_inj' hl rfl
    obtain rfl := (List.cons.inj hk).1
    have hmem : m ∈ l := by simp [hl']
    have hlast : l.getLast? = some m ↔ l2' = [] := by
      rw [hl'] at hnodup ⊢
      exact getLast?_eq_some_iff (List.nodup_append.mp hnodup).1
    rw [hold m hmem, h l1 m l2' hl', List.concat_eq_append]
    split
    · rename_i he
      rw [hlast.mp he]
      rfl
    · rename_i he
      cases l2' with
      | nil => exact absurd (hlast.mpr rfl) he
      | cons k' l2' => rfl

/-- An object that is taken out, with its neighbours linked to each other. -/
theorem unlink (h : Linked view (l1 ++ n :: l2)) (hnodup : (l1 ++ n :: l2).Nodup)
    (hold : ∀ m ∈ l1 ++ l2, view' m = (view m).map fun x =>
      ⟨if l2.head? = some m then l1.getLast? else x.prev, if l1.getLast? = some m then l2.head? else x.next⟩) :
    Linked view' (l1 ++ l2) := by
  have hdisjoint : ∀ m ∈ l1, m ∉ l2 := by
    intro m h1 h2
    have hd := (List.nodup_append.mp hnodup).2.2 m h1 m (List.mem_cons_of_mem n h2)
    exact hd rfl
  intro k1 m k2 hk
  have hmem : m ∈ l1 ++ l2 := by simp [hk]
  rw [hold m hmem]
  rcases List.append_eq_append_iff.mp hk with ⟨c, rfl, hc⟩ | ⟨c, hc, hk'⟩
  · -- the object stands in the second part
    rw [h (l1 ++ n :: c) m k2 (by rw [hc]; simp)]
    have hnotlast : l1.getLast? ≠ some m := by
      intro hlast
      exact hdisjoint m (List.mem_of_getLast? hlast) (by simp [hc])
    have hfirst : l2.head? = some m ↔ c = [] := by
      cases c with
      | nil => simp [hc]
      | cons k c =>
        have hne : k ≠ m := by
          rintro rfl
          have hn2 : l2.Nodup := (List.nodup_cons.mp (List.nodup_append.mp hnodup).2.1).2
          rw [hc] at hn2
          simp at hn2
        simp [hc, hne]
    rw [Option.map_some, if_neg hnotlast]
    split
    · rename_i he
      rw [hfirst.mp he]
      simp
    · rename_i he
      cases c with
      | nil => exact absurd (hfirst.mpr rfl) he
      | cons k c => simp [List.getLast?_append, List.getLast?_cons]
  · cases c with
    | nil =>
      obtain rfl : k1 = l1 := by simpa using hc.symm
      have hk2 : l2 = m :: k2 := by simpa using hk'.symm
      rw [h (k1 ++ [n]) m k2 (by rw [hk2]; simp)]
      have hnotlast : k1.getLast? ≠ some m := by
        intro hlast
        exact hdisjoint m (List.mem_of_getLast? hlast) (by simp [hk2])
      rw [Option.map_some, if_neg hnotlast, if_pos (by simp [hk2])]
    | cons k c =>
      obtain ⟨rfl, hk2⟩ : m = k ∧ k2 = c ++ l2 := by simpa using hk'
      have hm : m ∈ l1 := by simp [hc]
      rw [h k1 m (c ++ n :: l2) (by rw [hc]; simp)]
      have hnotfirst : l2.head? ≠ some m := by
        intro hfirst
        exact hdisjoint m hm (List.mem_of_mem_head? hfirst)
      have hlast : l1.getLast? = some m ↔ c = [] := by
        rw [hc]
        exact getLast?_eq_some_iff (hc ▸ (List.nodup_append.mp hnodup).1)
      rw [Option.map_some, if_neg hnotfirst]
      split
      · rename_i he
        rw [hk2, hlast.mp he]
        rfl
      · rename_i he
        cases c with
        | nil => exact absurd (hlast.mpr rfl) he
        | cons k c =>
          rw [hk2]
          rfl

end Linked

/-! ## Neighbours on a heap -/

namespace Heap

variable {α β : Type}

/-- Rewrite the object at an address, if there is one. -/
def modifyIfAny (h : Heap α) (i : Option Nat) (f : α → α) : Heap α :=
  match i with
  | some i => h.modify i f
  | none => h

/-- What a rewrite does not touch. -/
theorem map_modify (h : Heap α) (a b : Nat) {f : α → α} {g : α → β} (hg : ∀ x, g (f x) = g x) :
    ((h.modify a f).get b).map g = (h.get b).map g := by
  rw [get_modify]
  split
  · rename_i he
    rw [he, Option.map_map]
    exact congrArg (Option.map · (h.get a)) (funext hg)
  · rfl

theorem map_modifyIfAny (h : Heap α) (a : Option Nat) (b : Nat) {f : α → α} {g : α → β} (hg : ∀ x, g (f x) = g x) :
    ((h.modifyIfAny a f).get b).map g = (h.get b).map g := by
  cases a with
  | none => rfl
  | some a => exact map_modify h a b hg

/-- Link two neighbours, each of which may be the end of the list, to each other. -/
def relink (h : Heap α) (setPrev setNext : Option Nat → α → α) (prev next : Option Nat) : Heap α :=
  (h.modifyIfAny prev (setNext next)).modifyIfAny next (setPrev prev)

theorem get_modifyIfAny (h : Heap α) (a : Option Nat) (b : Nat) (f : α → α) :
    (h.modifyIfAny a f).get b = (h.get b).map fun x => if a = some b then f x else x := by
  cases a with
  | none =>
    show h.get b = _
    simp
  | some a =>
    show (h.modify a f).get b = _
    rw [get_modify]
    by_cases he : b = a
    · subst he
      simp
    · simp [he, Ne.symm he]

/-- The links after two neighbours were linked. -/
theorem links_relink (h : Heap α) {links : α → Links} {setPrev setNext : Option Nat → α → α}
    (hp : ∀ p x, links (setPrev p x) = ⟨p, (links x).next⟩) (hn : ∀ n x, links (setNext n x) = ⟨(links x).prev, n⟩)
    (prev next : Option Nat) (m : Nat) :
    ((h.relink setPrev setNext prev next).get m).map links = ((h.get m).map links).map fun y =>
      ⟨if next = some m then prev else y.prev, if prev = some m then next else y.next⟩ := by
  unfold relink
  rw [get_modifyIfAny, get_modifyIfAny, Option.map_map, Option.map_map, Option.map_map]
  refine congrArg (Option.map · (h.get m)) (funext fun x => ?_)
  by_cases h1 : next = some m <;> by_cases h2 : prev = some m <;> simp [h1, h2, hp, hn]

end Heap
