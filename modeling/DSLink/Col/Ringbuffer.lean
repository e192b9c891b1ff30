import Mathlib.Data.List.OfFn
import Mathlib.Data.List.Range
import Mathlib.Data.Option.Basic

/-!
# `Col.Ringbuffer` — the fixed-size queue of `sdk/src/col/ringbuffer.c`

The representation is the source's: `data` has `size` slots, `current` is the slot the next push writes and
`count` the number of occupied slots, which end just before `current`. A `Ringbuffer` carries the facts that
keep its indices inside the buffer, so a value that breaks them cannot be built.

## Contents
- `rbInit`, `rbCount`, `rbPush`, `rbFront`, `rbAt`, `rbPop`: the functions of the source. The element that
  `cleanup_fn` is called with is part of the result.
- `toList`: the abstract queue, oldest element first, and one equation for each function over it.
-/

namespace DSLink

/-- The slot of the `idx`-th oldest element, as `rb_at` computes it. -/
def slotOf (size current count idx : Nat) : Nat :=
  if count ≤ current then current - count + idx
  else if size ≤ size - (count - current) + idx then size - (count - current) + idx - size
  else size - (count - current) + idx

/-- The slot after `current`, wrapping at the end of the buffer. -/
def nextSlot (size current : Nat) : Nat := if current + 1 = size then 0 else current + 1

/-- `Ringbuffer` with its `cleanup_fn` left to the callers. An unwritten slot is `none`. -/
structure Ringbuffer (α : Type) where
  size : Nat
  current : Nat
  count : Nat
  data : Nat → Option α
  size_pos : 0 < size
  current_lt : current < size
  count_le : count ≤ size
  occupied : ∀ i, i < count → (data (slotOf size current count i)).isSome

/-! ## Slot arithmetic -/

theorem slotOf_lt {size current count i : Nat} (hcur : current < size) (hcnt : count ≤ size)
    (hi : i < count) : slotOf size current count i < size := by
  unfold slotOf
  split_ifs <;> omega

theorem nextSlot_lt {size current : Nat} (hcur : current < size) : nextSlot size current < size := by
  unfold nextSlot
  split_ifs <;> omega

/-- The slot `rb_push` writes becomes the newest one. -/
theorem slotOf_newest {size current count : Nat} (hcnt : count < size) :
    slotOf size (nextSlot size current) (count + 1) count = current := by
  unfold slotOf nextSlot
  split_ifs <;> omega

/-- Older elements stay in their slots when a push finds room. -/
theorem slotOf_older {size current count i : Nat} (hcnt : count < size) (hi : i < count) :
    slotOf size (nextSlot size current) (count + 1) i
      = slotOf size current count i := by
  unfold slotOf nextSlot
  split_ifs <;> omega

/-- In a full buffer the slot of the oldest element is the one the next push overwrites. -/
theorem slotOf_full_oldest {size current : Nat} (hcur : current < size) :
    slotOf size current size 0 = current := by
  unfold slotOf
  split_ifs <;> omega

/-- After a push into a full buffer the remaining elements move up by one. -/
theorem slotOf_full_shift {size current i : Nat} (hcur : current < size) (hi : i + 1 < size) :
    slotOf size (nextSlot size current) size i
      = slotOf size current size (i + 1) := by
  unfold slotOf nextSlot
  split_ifs <;> omega

theorem slotOf_full_newest {size current : Nat} (hpos : 0 < size) :
    slotOf size (nextSlot size current) size (size - 1) = current := by
  unfold slotOf nextSlot
  split_ifs <;> omega

/-- `rb_pop` only forgets the oldest slot. -/
theorem slotOf_pop {size current count i : Nat} (hcnt : count + 1 ≤ size) (hi : i < count) : slotOf size current count i = slotOf size current (count + 1) (i + 1) := by
  unfold slotOf
  split_ifs <;> omega

/-- Different elements sit in different slots. -/
theorem slotOf_inj {size current count i j : Nat} (hcnt : count ≤ size)
    (hi : i < count) (hj : j < count)
    (h : slotOf size current count i = slotOf size current count j) : i = j := by
  unfold slotOf at h
  split_ifs at h <;> omega

namespace Ringbuffer

variable {α : Type}

/-! ## The functions of the source -/

/-- `rb_init`: `none` where the source returns -1. -/
def rbInit (size : Nat) : Option (Ringbuffer α) :=
  if h : 0 < size then
    some ⟨size, 0, 0, fun _ => none, h, h, Nat.zero_le _, fun _ hi => absurd hi (Nat.not_lt_zero _)⟩
  else none

/-- `rb_count`. -/
def rbCount (rb : Ringbuffer α) : Nat := rb.count

/-- `rb_at`: `none` where the source returns NULL. -/
def rbAt (rb : Ringbuffer α) (idx : Nat) : Option α :=
  if rb.count ≤ idx then none else rb.data (slotOf rb.size rb.current rb.count idx)

/-- `rb_front`. -/
def rbFront (rb : Ringbuffer α) : Option α :=
  if rb.count = 0 then none else rb.data (slotOf rb.size rb.current rb.count 0)

/-- `rb_push`: the new buffer, the return value and the element `cleanup_fn` is called with. -/
def rbPush (rb : Ringbuffer α) (x : α) : Ringbuffer α × Int × Option α :=
  if h : rb.count = rb.size then
    ({ rb with
        current := nextSlot rb.size rb.current
        data := fun i => if i = rb.current then some x else rb.data i
        current_lt := nextSlot_lt rb.current_lt
        occupied := by
          intro i hi
          split_ifs with hc
          · rfl
          by_cases hl : i + 1 < rb.size
          · have ho := rb.occupied (i + 1) (by omega)
            rw [h] at ho ⊢
            rw [slotOf_full_shift rb.current_lt hl]
            exact ho
          · have hi' : i = rb.size - 1 := by omega
            rw [h, hi', slotOf_full_newest rb.size_pos] at hc
            exact absurd rfl hc },
      1, rb.data rb.current)
  else
    ({ rb with
        current := nextSlot rb.size rb.current
        count := rb.count + 1
        data := fun i => if i = rb.current then some x else rb.data i
        current_lt := nextSlot_lt rb.current_lt
        count_le := Nat.lt_of_le_of_ne rb.count_le h
        occupied := by
          intro i hi
          have hlt : rb.count < rb.size := Nat.lt_of_le_of_ne rb.count_le h
          split_ifs with hc
          · rfl
          by_cases hl : i < rb.count
          · rw [slotOf_older hlt hl]
            exact rb.occupied i hl
          · have hi' : i = rb.count := by omega
            rw [hi', slotOf_newest hlt] at hc
            exact absurd rfl hc },
      0, none)

/-- `rb_pop`: the new buffer, the return value and the element `cleanup_fn` is called with. -/
def rbPop (rb : Ringbuffer α) : Ringbuffer α × Int × Option α :=
  if h : 0 < rb.count then
    ({ rb with
        count := rb.count - 1
        count_le := Nat.le_trans (Nat.sub_le _ _) rb.count_le
        occupied := by
          intro i hi
          have hle := rb.count_le
          have hsucc : rb.count - 1 + 1 = rb.count := by omega
          rw [slotOf_pop (by omega) hi, hsucc]
          exact rb.occupied (i + 1) (by omega) },
      0, rb.data (slotOf rb.size rb.current rb.count 0))
  else (rb, -1, none)

/-- Write through the pointer that `rb_at idx` returned. -/
def modifyAt (rb : Ringbuffer α) (idx : Nat) (f : α → α) : Ringbuffer α where
  size := rb.size
  current := rb.current
  count := rb.count
  data := fun i =>
    if idx < rb.count ∧ i = slotOf rb.size rb.current rb.count idx then (rb.data i).map f else rb.data i
  size_pos := rb.size_pos
  current_lt := rb.current_lt
  count_le := rb.count_le
  occupied := by
    intro i hi
    split_ifs
    · rw [Option.isSome_map]; exact rb.occupied i hi
    · exact rb.occupied i hi

/-! ## The abstract queue -/

/-- The elements, oldest first. -/
def toList (rb : Ringbuffer α) : List α :=
  List.ofFn (fun i : Fin rb.count =>
    (rb.data (slotOf rb.size rb.current rb.count i)).get (rb.occupied i i.isLt))

@[simp] theorem length_toList (rb : Ringbuffer α) : rb.toList.length = rb.count := by
  simp [toList]

/-- `rb_at` is list indexing. -/
theorem rbAt_eq (rb : Ringbuffer α) (idx : Nat) : rb.rbAt idx = rb.toList[idx]? := by
  unfold rbAt
  split_ifs with h
  · rw [List.getElem?_eq_none (by simpa using h)]
  · rw [List.getElem?_eq_getElem (by simpa using h)]
    simp [toList]

theorem rbFront_eq (rb : Ringbuffer α) : rb.rbFront = rb.toList.head? := by
  rw [List.head?_eq_getElem?, ← rbAt_eq]
  unfold rbFront rbAt
  by_cases h : rb.count = 0 <;> simp [h]

@[simp] theorem rbCount_eq (rb : Ringbuffer α) : rb.rbCount = rb.toList.length := by simp [rbCount]

theorem toList_ext {rb : Ringbuffer α} {l : List α} (hlen : rb.count = l.length)
    (h : ∀ i, i < rb.count → rb.data (slotOf rb.size rb.current rb.count i) = l[i]?) :
    rb.toList = l := by
  apply List.ext_getElem?
  intro i
  by_cases hi : i < rb.count
  · rw [← rbAt_eq, rbAt, if_neg (by omega), h i hi]
  · rw [List.getElem?_eq_none (by simp; omega), List.getElem?_eq_none (by omega)]

theorem data_eq_toList {rb : Ringbuffer α} {i : Nat} (hi : i < rb.count) :
    rb.data (slotOf rb.size rb.current rb.count i) = rb.toList[i]? := by
  rw [← rbAt_eq, rbAt, if_neg (by omega)]

theorem size_rbInit {size : Nat} {rb : Ringbuffer α} (h : rbInit size = some rb) :
    rb.size = size ∧ rb.toList = [] := by
  unfold rbInit at h
  split_ifs at h
  cases h
  exact ⟨rfl, rfl⟩

theorem rbInit_of_pos {size : Nat} (h : 0 < size) :
    ∃ rb : Ringbuffer α, rbInit size = some rb ∧ rb.size = size ∧ rb.toList = [] := by
  refine ⟨_, dif_pos h, rfl, rfl⟩

@[simp] theorem size_rbPush (rb : Ringbuffer α) (x : α) : (rb.rbPush x).1.size = rb.size := by
  unfold rbPush
  split <;> rfl

/-- A push into a buffer with room appends. -/
theorem toList_rbPush_room {rb : Ringbuffer α} {x : α} (h : rb.toList.length ≠ rb.size) :
    (rb.rbPush x).1.toList = rb.toList ++ [x] := by
  rw [length_toList] at h
  have hlt : rb.count < rb.size := Nat.lt_of_le_of_ne rb.count_le h
  unfold rbPush
  rw [dif_neg h]
  apply toList_ext
  · simp
  · intro i hi
    simp only at hi ⊢
    by_cases hl : i < rb.count
    · have hne : slotOf rb.size rb.current rb.count i ≠ rb.current := by
        intro he
        have hcur := rb.current_lt
        unfold slotOf at he
        split_ifs at he <;> omega
      rw [slotOf_older hlt hl, if_neg hne, data_eq_toList hl,
        List.getElem?_append_left (by simpa using hl)]
    · have hi' : i = rb.toList.length := by simp; omega
      rw [hi', List.getElem?_concat_length, length_toList, slotOf_newest hlt, if_pos rfl]

/-- A push into a full buffer drops the oldest element. -/
theorem toList_rbPush_full {rb : Ringbuffer α} {x : α} (h : rb.toList.length = rb.size) :
    (rb.rbPush x).1.toList = rb.toList.tail ++ [x] := by
  rw [length_toList] at h
  have hpos := rb.size_pos
  unfold rbPush
  rw [dif_pos h]
  apply toList_ext
  · simp only [List.length_append, List.length_tail, length_toList, List.length_singleton]
    omega
  · intro i hi
    simp only at hi ⊢
    by_cases hl : i + 1 < rb.size
    · have hslot := slotOf_full_shift rb.current_lt hl
      have hne : slotOf rb.size rb.current rb.size (i + 1) ≠ rb.current := by
        intro he
        have he0 := he.trans (slotOf_full_oldest rb.current_lt).symm
        exact absurd (slotOf_inj (Nat.le_refl _) hl rb.size_pos he0) (by omega)
      have hd : rb.data (slotOf rb.size rb.current rb.size (i + 1)) = rb.toList[i + 1]? := by
        rw [← data_eq_toList (by omega), h]
      rw [h, hslot, if_neg hne, hd, List.getElem?_append_left (by simp; omega), List.getElem?_tail]
    · have hi' : i = rb.toList.tail.length := by simp; omega
      have hi'' : i = rb.size - 1 := by omega
      rw [hi', List.getElem?_concat_length, ← hi', hi'', h, slotOf_full_newest hpos,
        if_pos rfl]

/-- A push is appending to a queue that keeps the last `size` elements. -/
theorem toList_rbPush (rb : Ringbuffer α) (x : α) :
    (rb.rbPush x).1.toList
      = (if rb.toList.length = rb.size then rb.toList.tail else rb.toList) ++ [x] := by
  split_ifs with h
  · exact toList_rbPush_full h
  · exact toList_rbPush_room h

@[simp] theorem size_rbPop (rb : Ringbuffer α) : rb.rbPop.1.size = rb.size := by
  unfold rbPop
  split <;> rfl

/-- A pop drops the oldest element. -/
@[simp] theorem toList_rbPop (rb : Ringbuffer α) : rb.rbPop.1.toList = rb.toList.tail := by
  unfold rbPop
  split_ifs with h
  · apply toList_ext
    · simp
    · intro i hi
      have hle := rb.count_le
      have hsucc : rb.count - 1 + 1 = rb.count := by omega
      simp only at hi ⊢
      rw [List.getElem?_tail, ← data_eq_toList (by omega), slotOf_pop (by omega) hi, hsucc]
  · have hnil : rb.toList = [] := List.length_eq_zero_iff.mp (by simp; omega)
    rw [hnil]; rfl

@[simp] theorem size_modifyAt (rb : Ringbuffer α) (idx : Nat) (f : α → α) :
    (rb.modifyAt idx f).size = rb.size := rfl

/-- Writing through `rb_at`'s pointer changes that element only. -/
@[simp] theorem toList_modifyAt (rb : Ringbuffer α) (idx : Nat) (f : α → α) :
    (rb.modifyAt idx f).toList = rb.toList.modify idx f := by
  apply toList_ext
  · simp [modifyAt]
  · intro i hi
    have hi' : i < rb.count := hi
    have hd := data_eq_toList hi'
    simp only [modifyAt, List.getElem?_modify]
    by_cases h : idx = i
    · subst h
      simp [hi', hd]
    · have hne : ¬(idx < rb.count ∧
          slotOf rb.size rb.current rb.count i = slotOf rb.size rb.current rb.count idx) := fun hh =>
        h (slotOf_inj rb.count_le hi' hh.1 hh.2).symm
      rw [if_neg hne, hd]
      simp [h]

end Ringbuffer

end DSLink
