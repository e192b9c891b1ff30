import Mathlib.Data.List.Nodup
import Mathlib.Data.List.Perm.Subperm
import Mathlib.Data.Option.Basic
import Mathlib.Logic.Function.Basic

/-!
# `Lib.Heap` — allocated objects under addresses that are never reused

A pointer program is modelled by one heap for each kind of object it allocates. An address is the
number of the allocation, so a freed address stays dead and a dangling pointer is visible as one whose
`get` is `none`.
-/

/-- A heap of `α`-objects. `next` is the address of the next allocation; nothing lives at or above it. -/
structure Heap (α : Type) where
  next : Nat
  cell : Nat → Option α
  fresh : ∀ i, next ≤ i → cell i = none

namespace Heap

variable {α β : Type}

/-- The heap before the first allocation. -/
def empty : Heap α := ⟨0, fun _ => none, fun _ _ => rfl⟩

/-- The object at an address; `none` when it was never allocated or has been freed. -/
def get (h : Heap α) (i : Nat) : Option α := h.cell i

/-- Allocate `a` at address `h.next`. -/
def alloc (h : Heap α) (a : α) : Heap α where
  next := h.next + 1
  cell := fun i => if i = h.next then some a else h.cell i
  fresh := by
    intro i hi
    rw [if_neg (by omega)]
    exact h.fresh i (by omega)

/-- Rewrite the object at `i` in place; a dead address stays dead. -/
def modify (h : Heap α) (i : Nat) (f : α → α) : Heap α where
  next := h.next
  cell := fun j => if j = i then (h.cell i).map f else h.cell j
  fresh := by
    intro j hj
    by_cases hji : j = i
    · rw [if_pos hji, ← hji, h.fresh j hj, Option.map_none]
    · rw [if_neg hji, h.fresh j hj]

/-- Overwrite the object at `i`; a dead address stays dead. -/
def put (h : Heap α) (i : Nat) (a : α) : Heap α := h.modify i (fun _ => a)

/-- Free the object at `i`. -/
def free (h : Heap α) (i : Nat) : Heap α where
  next := h.next
  cell := fun j => if j = i then none else h.cell j
  fresh := by
    intro j hj
    by_cases hji : j = i
    · rw [if_pos hji]
    · rw [if_neg hji, h.fresh j hj]

@[simp] theorem get_empty (i : Nat) : (empty : Heap α).get i = none := rfl

theorem get_of_next_le {h : Heap α} {i : Nat} (hi : h.next ≤ i) : h.get i = none := h.fresh i hi

@[simp] theorem get_next (h : Heap α) : h.get h.next = none := get_of_next_le (Nat.le_refl _)

/-- A live address was handed out by an earlier allocation. -/
theorem lt_next_of_get {h : Heap α} {i : Nat} {a : α} (hi : h.get i = some a) : i < h.next := by
  by_contra hge
  rw [get_of_next_le (by omega)] at hi
  exact absurd hi (by simp)

theorem ne_next_of_get {h : Heap α} {i : Nat} {a : α} (hi : h.get i = some a) : i ≠ h.next :=
  Nat.ne_of_lt (lt_next_of_get hi)

/-- Addresses without repetitions that were all handed out. -/
theorem length_le_next {h : Heap α} {l : List Nat} (hn : l.Nodup) (hl : ∀ a ∈ l, (h.get a).isSome) :
    l.length ≤ h.next := by
  have hsub : l ⊆ List.range h.next := by
    intro a ha
    obtain ⟨x, hx⟩ := Option.isSome_iff_exists.mp (hl a ha)
    exact List.mem_range.mpr (lt_next_of_get hx)
  simpa using (List.subperm_of_subset hn hsub).length_le

theorem get_alloc (h : Heap α) (a : α) (i : Nat) :
    (h.alloc a).get i = if i = h.next then some a else h.get i := rfl

@[simp] theorem get_alloc_next (h : Heap α) (a : α) : (h.alloc a).get h.next = some a := by
  simp [get_alloc]

/-- Allocation leaves the objects that were there alone. -/
theorem get_alloc_of_get {h : Heap α} {a b : α} {i : Nat} (hi : h.get i = some b) :
    (h.alloc a).get i = some b := by
  rw [get_alloc, if_neg (ne_next_of_get hi), hi]

theorem get_modify (h : Heap α) (i : Nat) (f : α → α) (j : Nat) :
    (h.modify i f).get j = if j = i then (h.get i).map f else h.get j := rfl

@[simp] theorem get_modify_self (h : Heap α) (i : Nat) (f : α → α) :
    (h.modify i f).get i = (h.get i).map f := by simp [get_modify]

theorem get_modify_ne {h : Heap α} {i j : Nat} {f : α → α} (hji : j ≠ i) :
    (h.modify i f).get j = h.get j := by simp [get_modify, hji]

/-- What is live after a rewriting was live before it. -/
theorem get_modify_eq_some {h : Heap α} {i j : Nat} {f : α → α} {b : α} :
    (h.modify i f).get j = some b ↔ ∃ a, h.get j = some a ∧ b = if j = i then f a else a := by
  by_cases hji : j = i
  · rw [hji, get_modify_self, Option.map_eq_some_iff]
    simp only [if_true, eq_comm]
  · rw [get_modify_ne hji]
    simp only [if_neg hji, exists_eq_right']

theorem get_modify_of_get {h : Heap α} {i j : Nat} {f : α → α} {a : α} (hj : h.get j = some a) :
    (h.modify i f).get j = some (if j = i then f a else a) := get_modify_eq_some.mpr ⟨a, hj, rfl⟩

theorem get_put (h : Heap α) (i : Nat) (a : α) (j : Nat) :
    (h.put i a).get j = if j = i then (h.get i).map (fun _ => a) else h.get j := rfl

theorem get_put_self {h : Heap α} {i : Nat} {a b : α} (hi : h.get i = some b) :
    (h.put i a).get i = some a := by simp [get_put, hi]

theorem get_put_ne {h : Heap α} {i j : Nat} {a : α} (hji : j ≠ i) :
    (h.put i a).get j = h.get j := by simp [get_put, hji]

theorem get_free (h : Heap α) (i j : Nat) :
    (h.free i).get j = if j = i then none else h.get j := rfl

@[simp] theorem get_free_self (h : Heap α) (i : Nat) : (h.free i).get i = none := by
  simp [get_free]

theorem get_free_ne {h : Heap α} {i j : Nat} (hji : j ≠ i) : (h.free i).get j = h.get j := by
  simp [get_free, hji]

/-- What is live after a free was live before it, at another address. -/
theorem get_free_eq_some {h : Heap α} {i j : Nat} {a : α} :
    (h.free i).get j = some a ↔ j ≠ i ∧ h.get j = some a := by
  rw [get_free]
  by_cases hji : j = i <;> simp [hji]

@[simp] theorem next_modify (h : Heap α) (i : Nat) (f : α → α) : (h.modify i f).next = h.next := rfl
@[simp] theorem next_put (h : Heap α) (i : Nat) (a : α) : (h.put i a).next = h.next := rfl
@[simp] theorem next_free (h : Heap α) (i : Nat) : (h.free i).next = h.next := rfl
@[simp] theorem next_alloc (h : Heap α) (a : α) : (h.alloc a).next = h.next + 1 := rfl

/-- A heap is its next address and its cells. -/
theorem ext_get {h h' : Heap α} (hn : h.next = h'.next) (hc : ∀ i, h.get i = h'.get i) : h = h' := by
  obtain ⟨n, c, _⟩ := h
  obtain ⟨n', c', _⟩ := h'
  obtain rfl : n = n' := hn
  obtain rfl : c = c' := funext hc
  rfl

/-- Updates that commute on every object commute on the heap, wherever they are made. -/
theorem modify_comm {f g : α → α} (hfg : ∀ a, f (g a) = g (f a)) (h : Heap α) (i j : Nat) :
    (h.modify i f).modify j g = (h.modify j g).modify i f := by
  refine ext_get ?_ (fun k => ?_)
  · rfl
  simp only [get_modify]
  by_cases hi : k = i
  · by_cases hj : k = j
    · subst hi
      subst hj
      simp [Function.comp_def, hfg]
    · subst hi
      simp [hj]
  · by_cases hj : k = j
    · subst hj
      simp [hi]
    · simp [hi, hj]

/-! ## The objects of a heap as a list -/

/-- What lives in the heap is what stands in the list, each at its address. -/
structure Holds (h : Heap α) (l : List (Nat × α)) : Prop where
  nodup : (l.map Prod.fst).Nodup
  get : ∀ i a, h.get i = some a ↔ (i, a) ∈ l

/-- What a pointer that may be null adds to the list. -/
def ptr (p : Option Nat) (a : α) : List (Nat × α) := (p.map (·, a)).toList

@[simp] theorem ptr_none (a : α) : ptr none a = [] := rfl
@[simp] theorem ptr_some (i : Nat) (a : α) : ptr (some i) a = [(i, a)] := rfl

theorem mem_ptr {p : Option Nat} {a b : α} {i : Nat} : (i, b) ∈ ptr p a ↔ p = some i ∧ b = a := by
  cases p with
  | none => simp
  | some j => simp [eq_comm]

theorem holds_empty : Holds (empty : Heap α) [] := ⟨List.nodup_nil, fun i a => by simp⟩

theorem Holds.alloc {h : Heap α} {l : List (Nat × α)} (hl : Holds h l) (a : α) :
    Holds (h.alloc a) ((h.next, a) :: l) := by
  refine ⟨List.nodup_cons.mpr ⟨fun hm => ?_, hl.nodup⟩, fun i b => ?_⟩
  · obtain ⟨⟨i, b⟩, hmem, hi⟩ := List.mem_map.mp hm
    exact ne_next_of_get ((hl.get i b).mpr hmem) hi
  · rw [get_alloc, List.mem_cons, Prod.mk.injEq]
    split
    · rename_i hi
      subst hi
      have hnot : (h.next, b) ∉ l := fun hm => ne_next_of_get ((hl.get _ b).mpr hm) rfl
      simp [hnot, eq_comm]
    · rename_i hi
      rw [hl.get]
      simp [hi]

theorem Holds.free {h : Heap α} {l : List (Nat × α)} {i : Nat} {a : α} (hl : Holds h ((i, a) :: l)) :
    Holds (h.free i) l := by
  obtain ⟨hi, hn⟩ := List.nodup_cons.mp hl.nodup
  refine ⟨hn, fun j b => ?_⟩
  rw [get_free_eq_some, hl.get, List.mem_cons, Prod.mk.injEq]
  constructor
  · rintro ⟨hne, ⟨rfl, -⟩ | hm⟩
    · exact absurd rfl hne
    · exact hm
  · intro hm
    refine ⟨?_, .inr hm⟩
    rintro rfl
    exact hi (List.mem_map.mpr ⟨(j, b), hm, rfl⟩)

theorem Holds.modify {h : Heap α} {l : List (Nat × α)} {i : Nat} {a : α} (hl : Holds h ((i, a) :: l)) (f : α → α) :
    Holds (h.modify i f) ((i, f a) :: l) := by
  have hnodup := hl.nodup
  obtain ⟨hi, -⟩ := List.nodup_cons.mp hnodup
  refine ⟨hnodup, fun j c => ?_⟩
  have hget : h.get i = some a := (hl.get i a).mpr List.mem_cons_self
  by_cases hj : j = i
  · subst hj
    have hnot : (j, c) ∉ l := fun hm => hi (List.mem_map.mpr ⟨(j, c), hm, rfl⟩)
    rw [get_modify_self, hget]
    simp [hnot, eq_comm]
  · rw [get_modify_ne hj, hl.get]
    simp [hj]

theorem Holds.put {h : Heap α} {l : List (Nat × α)} {i : Nat} {a : α} (hl : Holds h ((i, a) :: l)) (b : α) :
    Holds (h.put i b) ((i, b) :: l) := hl.modify fun _ => b

theorem Holds.perm {h : Heap α} {l l' : List (Nat × α)} (hl : Holds h l) (hp : l.Perm l') : Holds h l' :=
  ⟨(hp.map Prod.fst).nodup_iff.mp hl.nodup, fun i a => (hl.get i a).trans hp.mem_iff⟩

/-! ## Heaps that agree up to a relation on the objects -/

/-- The same addresses are live, the next one is the same, and the objects are related by `R`. -/
def Rel (R : α → α → Prop) (h h' : Heap α) : Prop :=
  h'.next = h.next ∧ ∀ i, Option.Rel R (h.get i) (h'.get i)

theorem Rel.refl {R : α → α → Prop} (hR : ∀ a, R a a) (h : Heap α) : Rel R h h := by
  refine ⟨rfl, fun i => ?_⟩
  cases h.get i with
  | none => exact .none
  | some a => exact .some (hR a)

theorem Rel.symm {R : α → α → Prop} (hR : ∀ a b, R a b → R b a) {h h' : Heap α} (hr : Rel R h h') : Rel R h' h := by
  refine ⟨hr.1.symm, fun i => ?_⟩
  have h1 := hr.2 i
  generalize h.get i = a, h'.get i = b at *
  cases h1 with
  | none => exact .none
  | some r => exact .some (hR _ _ r)

theorem Rel.trans {R : α → α → Prop} (hR : ∀ a b c, R a b → R b c → R a c) {h h' h'' : Heap α}
    (h1 : Rel R h h') (h2 : Rel R h' h'') : Rel R h h'' := by
  refine ⟨h2.1.trans h1.1, fun i => ?_⟩
  have h1 := h1.2 i
  have h2 := h2.2 i
  generalize h.get i = a, h'.get i = b, h''.get i = c at *
  cases h1 with
  | none => cases h2; exact .none
  | some r1 => cases h2 with
    | some r2 => exact .some (hR _ _ _ r1 r2)

/-- What is live has a related object in the other heap. -/
theorem Rel.get {R : α → α → Prop} {h h' : Heap α} (hr : Rel R h h') {i : Nat} {a : α}
    (hi : h.get i = some a) : ∃ a', h'.get i = some a' ∧ R a a' := by
  have h1 := hr.2 i
  rw [hi] at h1
  generalize h'.get i = b at *
  cases h1 with
  | some r => exact ⟨_, rfl, r⟩

theorem Rel.get_rev {R : α → α → Prop} {h h' : Heap α} (hr : Rel R h h') {i : Nat} {a' : α}
    (hi : h'.get i = some a') : ∃ a, h.get i = some a ∧ R a a' := by
  have h1 := hr.2 i
  rw [hi] at h1
  generalize h.get i = b at *
  cases h1 with
  | some r => exact ⟨_, rfl, r⟩

theorem Rel.get_none {R : α → α → Prop} {h h' : Heap α} (hr : Rel R h h') {i : Nat} :
    h'.get i = none ↔ h.get i = none := by
  have h1 := hr.2 i
  generalize h.get i = a, h'.get i = b at *
  cases h1 <;> simp

/-- Rewriting one object in a related way gives a related heap. -/
theorem rel_modify {R : α → α → Prop} (hR : ∀ a, R a a) {h : Heap α} {i : Nat} {f : α → α}
    (hf : ∀ a, h.get i = some a → R a (f a)) : Rel R h (h.modify i f) := by
  refine ⟨rfl, fun j => ?_⟩
  by_cases hj : j = i
  · rw [hj, get_modify_self]
    cases hi : h.get i with
    | none => exact .none
    | some a => exact .some (hf a hi)
  · rw [get_modify_ne hj]
    exact (Rel.refl hR h).2 j

end Heap
