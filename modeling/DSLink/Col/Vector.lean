import Mathlib.Data.List.Basic
import Mathlib.Data.List.TakeDrop
import DSLink.Lib.PartitionPoint

/-!
# `Col.Vector` — the growable array of `sdk/src/col/vector.c`

`RawVector` has the source's fields; a slot that was never written is `none`. The functions below are the
source's, with its 32-bit `vec->size-1`. `Vec` is a vector whose elements are all written and inside the
capacity; the broker's pending acks are one.

## Contents
- the functions `vectorInit` … `vectorFree` on `RawVector`;
- `slots`: the elements below an index, and what `vector_erase_range`, `vector_remove_if` and
  `vector_upper_bound` do to them;
- `Vec` with `append`, `eraseRange`, `removeIf` and their equations over `toList`.
-/

namespace DSLink

/-- `a - b` on a `uint32_t`. -/
def sub32 (a b : Nat) : Nat := if b ≤ a then a - b else a + 4294967296 - b

theorem sub32_of_le {a b : Nat} (h : b ≤ a) : sub32 a b = a - b := if_pos h

/-- `Vector`. -/
structure RawVector (α : Type) where
  size : Nat
  capacity : Nat
  data : Nat → Option α

namespace RawVector

variable {α : Type}

/-! ## The functions of the source -/

/-- `vector_init`. -/
def vectorInit (initialSize : Nat) : RawVector α := ⟨0, initialSize, fun _ => none⟩

/-- `vector_count`. -/
def vectorCount (vec : RawVector α) : Nat := vec.size

/-- `vector_resize`: double the capacity, or start with 64. The slots keep their contents. -/
def vectorResize (vec : RawVector α) : RawVector α :=
  if vec.capacity ≤ vec.size then
    { vec with capacity := if vec.capacity * 2 = 0 then 64 else vec.capacity * 2 }
  else vec

/-- Write one slot. -/
def setSlot (data : Nat → Option α) (i : Nat) (x : Option α) : Nat → Option α :=
  fun j => if j = i then x else data j

/-- `memmove` of `n` elements from slot `src` to slot `dst`. -/
def moveSlots (data : Nat → Option α) (dst src n : Nat) : Nat → Option α :=
  fun j => if dst ≤ j ∧ j < dst + n then data (src + (j - dst)) else data j

/-- `vector_append`. -/
def vectorAppend (vec : RawVector α) (x : α) : RawVector α :=
  let vec := if vec.capacity ≤ vec.size then vectorResize vec else vec
  { vec with data := setSlot vec.data vec.size (some x), size := vec.size + 1 }

/-- `vector_get`: `none` where the source returns NULL. -/
def vectorGet (vec : RawVector α) (index : Nat) : Option α :=
  if vec.size ≤ index then none else vec.data index

/-- `vector_erase_range`, with its return value. -/
def vectorEraseRange (vec : RawVector α) (lower upper : Nat) : RawVector α × Int :=
  if sub32 vec.size 1 < lower ∨ upper ≤ lower then (vec, -1)
  else
    let upper := if vec.size ≤ upper then sub32 vec.size 1 else upper - 1
    if lower = 0 ∧ upper = vec.size then ({ vec with size := 0 }, 0)
    else
      ({ vec with
          data :=
            if upper < sub32 vec.size 1 then
              moveSlots vec.data lower (upper + 1) (vec.size - (upper - lower))
            else vec.data
          size := sub32 vec.size (upper - lower + 1) }, 0)

/-- `cmp_fn(data, element_ptr(vec, i))`. -/
def cmpSlot (cmp : α → α → Int) (x : α) (slot : Option α) : Int :=
  match slot with
  | some y => cmp x y
  | none => 0

/-- The loop of `vector_find`, from slot `n` on. -/
def findLoop (cmp : α → α → Int) (x : α) (data : Nat → Option α) (size : Nat) : Nat → Nat → Int
  | 0, _ => -1
  | fuel + 1, n =>
    if size ≤ n then -1
    else if cmpSlot cmp x (data n) = 0 then n
    else findLoop cmp x data size fuel (n + 1)

/-- `vector_find`. -/
def vectorFind (vec : RawVector α) (x : α) (cmp : α → α → Int) : Int :=
  if vec.size = 0 then -1 else findLoop cmp x vec.data vec.size vec.size 0

/-- The loop of `vector_remove_if`: `i` is the slot looked at last, `first` the next one to write. -/
def removeIfLoop (cmp : α → α → Int) (x : α) (size : Nat) :
    Nat → Nat → Nat → (Nat → Option α) → (Nat → Option α) × Nat
  | 0, _, first, data => (data, first)
  | fuel + 1, i, first, data =>
    if i + 1 = size then (data, first)
    else if cmpSlot cmp x (data (i + 1)) ≠ 0 then
      removeIfLoop cmp x size fuel (i + 1) (first + 1) (setSlot data first (data (i + 1)))
    else removeIfLoop cmp x size fuel (i + 1) first data

/-- `vector_remove_if`: the vector with its elements shifted, and the index of the first one to erase. -/
def vectorRemoveIf (vec : RawVector α) (x : α) (cmp : α → α → Int) : RawVector α × Nat :=
  let found := vectorFind vec x cmp
  if 0 ≤ found then
    let (data, first) := removeIfLoop cmp x vec.size vec.size found.toNat found.toNat vec.data
    ({ vec with data := data }, first)
  else (vec, vec.size)

/-- `vector_upper_bound_range`. -/
def vectorUpperBoundRange (vec : RawVector α) (x : α) (cmp : α → α → Int) (first last : Nat) : Nat :=
  if vec.size = 0 ∨ last = 0 then first
  else
    let last := if vec.size < last then vec.size else last
    if last ≤ first then last
    else partitionPoint (fun it => decide (0 ≤ cmpSlot cmp x (vec.data it))) (last - first) first (last - first)

/-- `vector_upper_bound`. -/
def vectorUpperBound (vec : RawVector α) (x : α) (cmp : α → α → Int) : Nat :=
  if vec.size = 0 then 0 else vectorUpperBoundRange vec x cmp 0 vec.size

/-- `vector_free`: the data is gone, the record stays. -/
def vectorFree (vec : RawVector α) : RawVector α := { vec with size := 0, capacity := 0, data := fun _ => none }

/-! ## The elements below an index -/

/-- The written slots below `n`, in order. -/
def slots (data : Nat → Option α) (n : Nat) : List α := (List.range n).filterMap data

@[simp] theorem slots_zero (data : Nat → Option α) : slots data 0 = [] := rfl

theorem slots_succ (data : Nat → Option α) (n : Nat) :
    slots data (n + 1) = slots data n ++ (data n).toList := by
  unfold slots
  rw [List.range_succ, List.filterMap_append]
  cases h : data n <;> simp [h]

theorem slots_congr {data data' : Nat → Option α} {n : Nat} (h : ∀ i, i < n → data i = data' i) :
    slots data n = slots data' n := by
  induction n with
  | zero => rfl
  | succ n ih =>
    rw [slots_succ, slots_succ, ih (fun i hi => h i (by omega)), h n (Nat.lt_succ_self n)]

theorem length_slots {data : Nat → Option α} {n : Nat} (h : ∀ i, i < n → (data i).isSome) :
    (slots data n).length = n := by
  induction n with
  | zero => rfl
  | succ n ih =>
    obtain ⟨x, hx⟩ := Option.isSome_iff_exists.mp (h n (Nat.lt_succ_self n))
    rw [slots_succ, List.length_append, ih (fun i hi => h i (by omega)), hx]
    rfl

theorem getElem?_slots {data : Nat → Option α} {n i : Nat} (h : ∀ i, i < n → (data i).isSome)
    (hi : i < n) : (slots data n)[i]? = data i := by
  induction n with
  | zero => exact absurd hi (Nat.not_lt_zero i)
  | succ n ih =>
    have hlen := @length_slots _ data n (fun j hj => h j (by omega))
    obtain ⟨x, hx⟩ := Option.isSome_iff_exists.mp (h n (Nat.lt_succ_self n))
    rw [slots_succ, hx]
    by_cases hin : i < n
    · rw [List.getElem?_append_left (by omega), ih (fun j hj => h j (by omega)) hin]
    · have hin' : i = n := by omega
      subst hin'
      rw [List.getElem?_append_right (by omega), hlen, hx]
      simp

/-! ## What the functions do to the elements -/

/-- The elements fit into the capacity and are all written. -/
structure Wf (vec : RawVector α) : Prop where
  size_le : vec.size ≤ vec.capacity
  written : ∀ i, i < vec.size → (vec.data i).isSome

/-- The elements, in order. -/
def toList (vec : RawVector α) : List α := slots vec.data vec.size

theorem Wf.length_toList {vec : RawVector α} (h : vec.Wf) : vec.toList.length = vec.size :=
  length_slots h.written

theorem Wf.getElem?_toList {vec : RawVector α} (h : vec.Wf) {i : Nat} (hi : i < vec.size) :
    vec.toList[i]? = vec.data i := getElem?_slots h.written hi

theorem Wf.vectorGet_eq {vec : RawVector α} (h : vec.Wf) (i : Nat) : vec.vectorGet i = vec.toList[i]? := by
  unfold vectorGet
  split_ifs with hi
  · rw [List.getElem?_eq_none (by rw [h.length_toList]; exact hi)]
  · rw [h.getElem?_toList (by omega)]

/-- The first elements are the slots below an index. -/
theorem Wf.take_toList {vec : RawVector α} (h : vec.Wf) {n : Nat} (hn : n ≤ vec.size) :
    vec.toList.take n = slots vec.data n := by
  have hsub := @length_slots _ vec.data n (fun i hi => h.written i (by omega))
  apply List.ext_getElem?
  intro i
  by_cases hi : i < n
  · rw [List.getElem?_take_of_lt hi, h.getElem?_toList (by omega),
      getElem?_slots (fun j hj => h.written j (by omega)) hi]
  · rw [List.getElem?_eq_none (by rw [List.length_take]; omega), List.getElem?_eq_none (by omega)]

theorem vectorInit_wf (n : Nat) : (vectorInit n : RawVector α).Wf :=
  ⟨Nat.zero_le _, fun _ hi => absurd hi (Nat.not_lt_zero _)⟩

theorem vectorFree_wf (vec : RawVector α) : vec.vectorFree.Wf :=
  ⟨Nat.le_refl _, fun _ hi => absurd hi (Nat.not_lt_zero _)⟩

theorem vectorResize_size (vec : RawVector α) :
    vec.vectorResize.size = vec.size ∧ vec.vectorResize.data = vec.data := by
  unfold vectorResize
  split_ifs <;> exact ⟨rfl, rfl⟩

/-- Resizing makes room for one more element. -/
theorem vectorResize_room {vec : RawVector α} (h : vec.Wf) (hfull : vec.capacity ≤ vec.size) :
    vec.size < vec.vectorResize.capacity := by
  have hle := h.size_le
  unfold vectorResize
  rw [if_pos hfull]
  show vec.size < if vec.capacity * 2 = 0 then 64 else vec.capacity * 2
  split_ifs <;> omega

theorem Wf.vectorAppend {vec : RawVector α} (h : vec.Wf) (x : α) :
    (vec.vectorAppend x).Wf ∧ (vec.vectorAppend x).toList = vec.toList ++ [x] := by
  -- `w` is the vector after the resize: same elements, room for one more
  obtain ⟨w, hw, hsize, hdata, hroom⟩ : ∃ w : RawVector α,
      (if vec.capacity ≤ vec.size then vec.vectorResize else vec) = w ∧
      w.size = vec.size ∧ w.data = vec.data ∧ vec.size < w.capacity := by
    by_cases hfull : vec.capacity ≤ vec.size
    · exact ⟨_, if_pos hfull, (vectorResize_size vec).1, (vectorResize_size vec).2, vectorResize_room h hfull⟩
    · exact ⟨_, if_neg hfull, rfl, rfl, by omega⟩
  unfold RawVector.vectorAppend
  simp only [hw]
  constructor
  · refine ⟨by simp only; omega, fun i hi => ?_⟩
    simp only [setSlot, hdata, hsize] at hi ⊢
    split_ifs with hc
    · rfl
    · exact h.written i (by omega)
  · unfold toList
    simp only [hsize, hdata]
    have hold : slots (setSlot vec.data vec.size (some x)) vec.size = slots vec.data vec.size :=
      slots_congr (fun i hi => if_neg (by omega))
    rw [slots_succ, hold]
    simp [setSlot]

/-- `vector_erase_range` removes the elements of `[lower, upper)`. Only an empty vector with
    `0 < lower < upper` is left out: there the size underflows. -/
theorem Wf.vectorEraseRange {vec : RawVector α} (h : vec.Wf) {lower upper : Nat}
    (hr : lower < vec.size ∨ upper ≤ lower ∨ lower = 0) :
    (vec.vectorEraseRange lower upper).1.Wf ∧
      (vec.vectorEraseRange lower upper).1.toList
        = vec.toList.take lower ++ vec.toList.drop (max lower upper) := by
  have hlen := h.length_toList
  unfold RawVector.vectorEraseRange
  by_cases hle : upper ≤ lower
  · rw [if_pos (Or.inr hle), Nat.max_eq_left hle, List.take_append_drop]
    exact ⟨h, rfl⟩
  by_cases h0 : vec.size = 0
  · -- only `lower = 0` is left: the size underflows back to 0
    have hl0 : lower = 0 := by omega
    have hnil : vec.toList = [] := List.length_eq_zero_iff.mp (by omega)
    have hc : ¬(sub32 vec.size 1 < lower ∨ upper ≤ lower) := by rw [h0]; simp [sub32]; omega
    rw [if_neg hc]
    simp only [h0, Nat.zero_le, if_true, hl0]
    constructor
    · exact ⟨Nat.zero_le _, fun i hi => absurd hi (by simp [sub32])⟩
    · rw [hnil]
      simp [toList, sub32]
  have hpred : sub32 vec.size 1 = vec.size - 1 := sub32_of_le (by omega)
  have hlt : lower < vec.size := by omega
  rw [if_neg (by rw [hpred]; omega)]
  -- `u` is the last index to erase
  obtain ⟨u, hu, hlu, hus, hmin⟩ : ∃ u,
      (if vec.size ≤ upper then vec.size - 1 else upper - 1) = u ∧ lower ≤ u ∧ u < vec.size ∧
        u + 1 = min upper vec.size := by
    split_ifs with hc
    · exact ⟨_, rfl, by omega, by omega, by omega⟩
    · exact ⟨_, rfl, by omega, by omega, by omega⟩
  have hsize : sub32 vec.size (u - lower + 1) = lower + (vec.size - (u + 1)) := by
    rw [sub32_of_le (by omega)]; omega
  simp only [hpred, hu, if_neg (show ¬(lower = 0 ∧ u = vec.size) by omega), hsize]
  obtain ⟨data', hd', hlow, hhigh⟩ : ∃ data' : Nat → Option α,
      (if u < vec.size - 1 then moveSlots vec.data lower (u + 1) (vec.size - (u - lower)) else vec.data)
        = data' ∧ (∀ i, i < lower → data' i = vec.data i) ∧
        (∀ i, i < vec.size - (u + 1) → data' (lower + i) = vec.data (u + 1 + i)) := by
    split_ifs with hc
    · refine ⟨_, rfl, fun i hi => if_neg (by omega), fun i hi => ?_⟩
      have hin : lower ≤ lower + i ∧ lower + i < lower + (vec.size - (u - lower)) := by omega
      simp only [moveSlots, if_pos hin, Nat.add_sub_cancel_left]
    · exact ⟨_, rfl, fun i hi => rfl, fun i hi => absurd hi (by omega)⟩
  rw [hd']
  have hwritten : ∀ i, i < lower + (vec.size - (u + 1)) → (data' i).isSome := by
    intro i hi
    by_cases hil : i < lower
    · rw [hlow i hil]; exact h.written i (by omega)
    · obtain ⟨j, rfl⟩ := Nat.exists_eq_add_of_le (Nat.le_of_not_lt hil)
      rw [hhigh j (by omega)]; exact h.written _ (by omega)
  refine ⟨⟨by have := h.size_le; simp only; omega, hwritten⟩, ?_⟩
  show slots data' (lower + (vec.size - (u + 1))) = _
  have hlen' := length_slots hwritten
  apply List.ext_getElem?
  intro i
  by_cases hi : i < lower + (vec.size - (u + 1))
  · rw [getElem?_slots hwritten hi]
    by_cases hil : i < lower
    · rw [List.getElem?_append_left (by simp; omega), List.getElem?_take_of_lt hil, hlow i hil,
        h.getElem?_toList (by omega)]
    · obtain ⟨j, rfl⟩ := Nat.exists_eq_add_of_le (Nat.le_of_not_lt hil)
      have hidx : max lower upper + j = u + 1 + j := by omega
      rw [List.getElem?_append_right (by rw [List.length_take]; omega), List.length_take, List.getElem?_drop, hhigh j (by omega),
        show lower + j - min lower vec.toList.length = j by omega, hidx, h.getElem?_toList (by omega)]
  · rw [List.getElem?_eq_none (by omega), List.getElem?_eq_none (by
      simp only [List.length_append, List.length_take, List.length_drop]; omega)]

/-- `vector_find` stops at the first match. -/
theorem findLoop_spec {cmp : α → α → Int} {x : α} {data : Nat → Option α} {size : Nat} :
    ∀ (fuel n : Nat), size ≤ n + fuel → (∀ i, i < n → cmpSlot cmp x (data i) ≠ 0) →
      (findLoop cmp x data size fuel n = -1 ∧ ∀ i, i < size → cmpSlot cmp x (data i) ≠ 0) ∨
      ∃ m : Nat, findLoop cmp x data size fuel n = m ∧ m < size ∧ cmpSlot cmp x (data m) = 0 ∧
        ∀ i, i < m → cmpSlot cmp x (data i) ≠ 0 := by
  intro fuel
  induction fuel with
  | zero =>
    intro n hn hpre
    exact Or.inl ⟨rfl, fun i hi => hpre i (by omega)⟩
  | succ fuel ih =>
    intro n hn hpre
    unfold findLoop
    split_ifs with hsize hc
    · exact Or.inl ⟨rfl, fun i hi => hpre i (by omega)⟩
    · exact Or.inr ⟨n, rfl, by omega, hc, hpre⟩
    · refine ih (n + 1) (by omega) (fun i hi => ?_)
      by_cases hin : i = n
      · exact hin ▸ hc
      · exact hpre i (by omega)

/-- Appending a slot to a filtered prefix. -/
theorem filter_slots_succ {data : Nat → Option α} {n : Nat} {p : α → Bool} :
    (slots data (n + 1)).filter p = (slots data n).filter p ++ (data n).toList.filter p := by
  rw [slots_succ, List.filter_append]

/-- The loop of `vector_remove_if` keeps below `first` what it has kept so far of the slots up to `i`. -/
theorem removeIfLoop_spec {cmp : α → α → Int} {x : α} {size : Nat} {data₀ : Nat → Option α} :
    ∀ (fuel i first : Nat) (data : Nat → Option α), size ≤ i + 1 + fuel → i < size → first ≤ i →
      (∀ j, j < size → (data j).isSome) → (∀ j, i < j → data j = data₀ j) →
      slots data first = (slots data₀ (i + 1)).filter (fun y => decide (cmp x y ≠ 0)) →
      ∃ data' first', removeIfLoop cmp x size fuel i first data = (data', first') ∧ first' < size ∧
        (∀ j, j < size → (data' j).isSome) ∧
        slots data' first' = (slots data₀ size).filter (fun y => decide (cmp x y ≠ 0)) := by
  intro fuel
  induction fuel with
  | zero =>
    intro i first data hf hi hle hw _ hs
    have hsize : i + 1 = size := by omega
    exact ⟨data, first, rfl, by omega, hw, hsize ▸ hs⟩
  | succ fuel ih =>
    intro i first data hf hi hle hw hrest hs
    unfold removeIfLoop
    split_ifs with hend hc
    · exact ⟨data, first, rfl, by omega, hw, hend ▸ hs⟩
    · -- a kept element moves down to `first`
      obtain ⟨y, hy⟩ := Option.isSome_iff_exists.mp (hw (i + 1) (by omega))
      have hy₀ : data₀ (i + 1) = some y := by rw [← hrest (i + 1) (by omega), hy]
      have hcy : cmp x y ≠ 0 := by simpa [cmpSlot, hy] using hc
      refine ih (i + 1) (first + 1) _ (by omega) (by omega) (by omega) ?_ ?_ ?_
      · intro j hj
        unfold setSlot
        split_ifs
        · rw [hy]; rfl
        · exact hw j hj
      · intro j hj
        unfold setSlot
        rw [if_neg (by omega)]
        exact hrest j (by omega)
      · have hold : slots (setSlot data first (data (i + 1))) first = slots data first :=
          slots_congr (fun j hj => if_neg (by omega))
        rw [slots_succ, filter_slots_succ, hy₀, hold, hs]
        simp [setSlot, hy, hcy]
    · -- a dropped element is skipped
      obtain ⟨y, hy⟩ := Option.isSome_iff_exists.mp (hw (i + 1) (by omega))
      have hy₀ : data₀ (i + 1) = some y := by rw [← hrest (i + 1) (by omega), hy]
      have hcy : cmp x y = 0 := by simpa [cmpSlot, hy] using hc
      refine ih (i + 1) first data (by omega) (by omega) (by omega) hw (fun j hj => hrest j (by omega)) ?_
      rw [filter_slots_succ, hy₀, hs]
      simp [hcy]

/-- `vector_remove_if` gathers the elements to keep below the index it returns. -/
theorem Wf.vectorRemoveIf {vec : RawVector α} (h : vec.Wf) (x : α) (cmp : α → α → Int) :
    (vec.vectorRemoveIf x cmp).1.Wf ∧ (vec.vectorRemoveIf x cmp).1.size = vec.size ∧
      (vec.vectorRemoveIf x cmp).2 ≤ vec.size ∧
      slots (vec.vectorRemoveIf x cmp).1.data (vec.vectorRemoveIf x cmp).2
        = vec.toList.filter (fun y => decide (cmp x y ≠ 0)) := by
  have hkeep : ∀ n, n ≤ vec.size → (∀ i, i < n → cmpSlot cmp x (vec.data i) ≠ 0) →
      (slots vec.data n).filter (fun y => decide (cmp x y ≠ 0)) = slots vec.data n := by
    intro n hn hne
    refine List.filter_eq_self.mpr (fun y hy => ?_)
    obtain ⟨i, hi, hyi⟩ := List.mem_filterMap.mp hy
    have hin := List.mem_range.mp hi
    have hci := hne i hin
    rw [hyi] at hci
    simpa [cmpSlot] using hci
  have hfind : (vectorFind vec x cmp = -1 ∧ ∀ i, i < vec.size → cmpSlot cmp x (vec.data i) ≠ 0) ∨
      ∃ m : Nat, vectorFind vec x cmp = m ∧ m < vec.size ∧ cmpSlot cmp x (vec.data m) = 0 ∧
        ∀ i, i < m → cmpSlot cmp x (vec.data i) ≠ 0 := by
    unfold vectorFind
    split_ifs with h0
    · exact Or.inl ⟨rfl, fun i hi => absurd hi (by omega)⟩
    · exact findLoop_spec vec.size 0 (by omega) (fun i hi => absurd hi (by omega))
  unfold RawVector.vectorRemoveIf
  rcases hfind with ⟨hf, hne⟩ | ⟨m, hf, hm, hc, hpre⟩
  · rw [hf]
    exact ⟨h, rfl, Nat.le_refl _, (hkeep vec.size (Nat.le_refl _) hne).symm⟩
  · obtain ⟨y, hy⟩ := Option.isSome_iff_exists.mp (h.written m hm)
    have hcy : cmp x y = 0 := by simpa [cmpSlot, hy] using hc
    have hs : slots vec.data m = (slots vec.data (m + 1)).filter (fun z => decide (cmp x z ≠ 0)) := by
      rw [filter_slots_succ, hkeep m (by omega) hpre, hy]
      simp [hcy]
    obtain ⟨data', first', hl, hlt, hw, hs'⟩ := @removeIfLoop_spec _ cmp x vec.size vec.data vec.size m m vec.data
      (by omega) hm (Nat.le_refl _) h.written (fun _ _ => rfl) hs
    simp only [hf, Int.natCast_nonneg, if_true, Int.toNat_natCast, hl]
    exact ⟨⟨h.size_le, hw⟩, trivial, by omega, hs'⟩

/-- `vector_upper_bound` is the halving search over the whole vector. -/
theorem vectorUpperBound_eq (vec : RawVector α) (x : α) (cmp : α → α → Int) : vec.vectorUpperBound x cmp
    = partitionPoint (fun it => decide (0 ≤ cmpSlot cmp x (vec.data it))) vec.size 0 vec.size := by
  unfold RawVector.vectorUpperBound vectorUpperBoundRange
  by_cases h0 : vec.size = 0
  · simp [h0, partitionPoint]
  · simp [h0]

end RawVector

/-! ## Vectors whose elements are all there -/

/-- A vector that carries its well-formedness. -/
structure Vec (α : Type) where
  raw : RawVector α
  wf : raw.Wf

namespace Vec

variable {α : Type}

/-- The elements, in order. -/
def toList (vec : Vec α) : List α := vec.raw.toList

/-- `vector_init`. -/
def init (n : Nat) : Vec α := ⟨RawVector.vectorInit n, RawVector.vectorInit_wf n⟩

/-- `vector_count`. -/
def count (vec : Vec α) : Nat := vec.raw.vectorCount

/-- `vector_append`. -/
def append (vec : Vec α) (x : α) : Vec α := ⟨vec.raw.vectorAppend x, (vec.wf.vectorAppend x).1⟩

/-- `vector_get`. -/
def get (vec : Vec α) (i : Nat) : Option α := vec.raw.vectorGet i

/-- `vector_erase_range`, from the start of the vector. -/
def erasePrefix (vec : Vec α) (upper : Nat) : Vec α :=
  ⟨(vec.raw.vectorEraseRange 0 upper).1, (vec.wf.vectorEraseRange (Or.inr (Or.inr rfl))).1⟩

/-- `vector_remove_if` followed by `vector_erase_range` up to `vector_count`. -/
def eraseIf (vec : Vec α) (x : α) (cmp : α → α → Int) : Vec α :=
  let moved := vec.raw.vectorRemoveIf x cmp
  ⟨(moved.1.vectorEraseRange moved.2 moved.1.vectorCount).1,
    ((vec.wf.vectorRemoveIf x cmp).1.vectorEraseRange ((Nat.lt_or_ge _ _).imp id Or.inl)).1⟩

/-- `vector_upper_bound`. -/
def upperBound (vec : Vec α) (x : α) (cmp : α → α → Int) : Nat := vec.raw.vectorUpperBound x cmp

/-- `vector_free`. -/
def free (vec : Vec α) : Vec α := ⟨vec.raw.vectorFree, RawVector.vectorFree_wf vec.raw⟩

@[simp] theorem toList_init (n : Nat) : (init n : Vec α).toList = [] := rfl

@[simp] theorem toList_free (vec : Vec α) : vec.free.toList = [] := rfl

@[simp] theorem toList_append (vec : Vec α) (x : α) : (vec.append x).toList = vec.toList ++ [x] :=
  (vec.wf.vectorAppend x).2

@[simp] theorem count_eq (vec : Vec α) : vec.count = vec.toList.length := vec.wf.length_toList.symm

theorem get_eq (vec : Vec α) (i : Nat) : vec.get i = vec.toList[i]? := vec.wf.vectorGet_eq i

@[simp] theorem toList_erasePrefix (vec : Vec α) (upper : Nat) :
    (vec.erasePrefix upper).toList = vec.toList.drop upper := by
  have h := (@RawVector.Wf.vectorEraseRange _ _ vec.wf 0 upper (Or.inr (Or.inr rfl))).2
  rw [List.take_zero, List.nil_append, Nat.zero_max] at h
  exact h

theorem upperBound_le (vec : Vec α) (x : α) (cmp : α → α → Int) : vec.upperBound x cmp ≤ vec.toList.length := by
  have h := partitionPoint_bounds (p := fun it => decide (0 ≤ RawVector.cmpSlot cmp x (vec.raw.data it)))
    vec.raw.size 0 vec.raw.size
  rw [← RawVector.vectorUpperBound_eq, Nat.zero_add, ← vec.wf.length_toList] at h
  exact h.2

/-- `vector_upper_bound` is `m` exactly when the elements it compares on the way there compare as they should. -/
theorem upperBound_eq_iff {vec : Vec α} {x : α} {cmp : α → α → Int} {m : Nat} (hm : m ≤ vec.toList.length) :
    vec.upperBound x cmp = m ↔ ∀ i ∈ probes m vec.toList.length 0 vec.toList.length,
      ∀ e ∈ vec.toList[i]?, (0 ≤ cmp x e ↔ i < m) := by
  have hlen : vec.toList.length = vec.raw.size := vec.wf.length_toList
  rw [upperBound, RawVector.vectorUpperBound_eq, hlen, partitionPoint_eq_iff _ _ _ (Nat.le_refl _) (Nat.zero_le _)
    (by omega)]
  refine forall₂_congr (fun i hi => ?_)
  have hlt : i < vec.raw.size := by simpa using mem_probes_lt hi
  obtain ⟨e, he⟩ := Option.isSome_iff_exists.mp (vec.wf.written i hlt)
  have hget : vec.toList[i]? = some e := by rw [toList, vec.wf.getElem?_toList hlt, he]
  simp [hget, he, RawVector.cmpSlot]

/-- `vector_upper_bound` is the index from which on the elements compare above `x`. -/
theorem upperBound_eq {vec : Vec α} {x : α} {cmp : α → α → Int} {m : Nat} (hm : m ≤ vec.toList.length)
    (hbelow : ∀ e ∈ vec.toList.take m, 0 ≤ cmp x e) (habove : ∀ e ∈ vec.toList.drop m, cmp x e < 0) :
    vec.upperBound x cmp = m := by
  refine (upperBound_eq_iff hm).mpr (fun i _ e he => ?_)
  by_cases hi : i < m
  · have hmem : e ∈ vec.toList.take m := List.mem_of_getElem? (i := i) (by rw [List.getElem?_take_of_lt hi]; exact he)
    simp [hi, hbelow e hmem]
  · have hmem : e ∈ vec.toList.drop m := List.mem_of_getElem? (i := i - m)
      (by rw [List.getElem?_drop, Nat.add_sub_cancel' (by omega)]; exact he)
    simp [hi, habove e hmem]

/-- `vector_remove_if` with `vector_erase_range` is `filter`. -/
@[simp] theorem toList_eraseIf (vec : Vec α) (x : α) (cmp : α → α → Int) :
    (vec.eraseIf x cmp).toList = vec.toList.filter (fun y => decide (cmp x y ≠ 0)) := by
  obtain ⟨hw, hsize, hle, hs⟩ := vec.wf.vectorRemoveIf x cmp
  have h := (@RawVector.Wf.vectorEraseRange _ _ hw (vec.raw.vectorRemoveIf x cmp).2
    (vec.raw.vectorRemoveIf x cmp).1.size ((Nat.lt_or_ge _ _).imp id Or.inl)).2
  have hlen := hw.length_toList
  rw [List.drop_eq_nil_of_le (by omega), List.append_nil, hw.take_toList (by omega), hs] at h
  exact h

end Vec

end DSLink
