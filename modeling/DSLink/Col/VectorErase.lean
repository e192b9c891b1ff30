import DSLink.Col.Vector

/-!
# `Col.VectorErase` — erasing from a vector, with the slots that are touched

`vector_erase`, and `vector_erase_range` once more, with the slots their `memmove` reads and writes: there is no
result where one of them is outside of the allocation. Both compare with `vec->size-1`, which is huge for an empty
vector, and `vector_erase` takes it for the size. `vector_erase_range` moves more slots than there are elements behind
the range, so it touches slots from the size on and needs room for them.

## Contents
- `memmove`, `vectorErase`, `vectorEraseRangeChecked`.
- `Erases`, `Refuses`: what a call is to leave.
- `erase_exact`: when it does; `erase_if_filter`: `vector_remove_if` and `vector_erase_range` together.
-/

namespace DSLink

namespace RawVector

variable {α : Type}

/-! ## The functions of the source -/

/-- `memmove` of `n` elements inside of the allocation. -/
def memmove (vec : RawVector α) (dst src n : Nat) : Option (Nat → Option α) :=
  if n = 0 ∨ dst + n ≤ vec.capacity ∧ src + n ≤ vec.capacity then some (moveSlots vec.data dst src n) else none

/-- `vector_erase`, with its return value. -/
def vectorErase (vec : RawVector α) (index : Nat) : Option (RawVector α × Int) :=
  if sub32 vec.size 1 ≤ index then some (vec, -1)
  else
    (if index ≠ sub32 vec.size 1 then vec.memmove index (index + 1) (sub32 vec.size (index + 1))
      else some vec.data).map fun data =>
    ({ vec with data := data, size := sub32 vec.size 1 }, 0)

/-- `vector_erase_range`, with its return value. -/
def vectorEraseRangeChecked (vec : RawVector α) (lower upper : Nat) : Option (RawVector α × Int) :=
  if sub32 vec.size 1 < lower ∨ upper ≤ lower then some (vec, -1)
  else
    let upper := if vec.size ≤ upper then sub32 vec.size 1 else upper - 1
    if lower = 0 ∧ upper = vec.size then some ({ vec with size := 0 }, 0)
    else
      (if upper < sub32 vec.size 1 then vec.memmove lower (upper + 1) (sub32 vec.size (upper - lower))
        else some vec.data).map fun data =>
      ({ vec with data := data, size := sub32 vec.size (upper - lower + 1) }, 0)

/-! ## What a call is to leave -/

/-- The call succeeds and leaves the elements outside of `[lower, upper)`. -/
def Erases (vec : RawVector α) (lower upper : Nat) (result : Option (RawVector α × Int)) : Prop :=
  ∃ vec', result = some (vec', 0) ∧ vec'.Wf ∧ vec'.toList = vec.toList.take lower ++ vec.toList.drop upper

/-- The call fails and leaves the vector as it was. -/
def Refuses (vec : RawVector α) (result : Option (RawVector α × Int)) : Prop := result = some (vec, -1)

/-- `vector_erase` at `index` is removal of one element. -/
def EraseRight (vec : RawVector α) (index : Nat) : Prop :=
  (index < vec.size → vec.Erases index (index + 1) (vec.vectorErase index)) ∧
    (vec.size ≤ index → vec.Refuses (vec.vectorErase index))

/-- `vector_erase_range` is removal of a range. -/
def EraseRangeRight (vec : RawVector α) (lower upper : Nat) : Prop :=
  (lower < upper ∧ lower < vec.size → vec.Erases lower upper (vec.vectorEraseRangeChecked lower upper)) ∧
    (¬ (lower < upper ∧ lower < vec.size) → vec.Refuses (vec.vectorEraseRangeChecked lower upper))

/-- The return value and the elements of a result. -/
def outcome (result : Option (RawVector α × Int)) : Option (List α × Int) := result.map fun r => (r.1.toList, r.2)

/-- `vector_erase` at `index` is `vector_erase_range` from there to the next index, which is a `uint32_t`. -/
def EraseAgrees (vec : RawVector α) (index : Nat) : Prop :=
  outcome (vec.vectorErase index) = outcome (vec.vectorEraseRangeChecked index ((index + 1) % 4294967296))

/-! ## Ranges -/

variable {vec : RawVector α} {lower upper index : Nat}

/-- Nothing is moved when the range ends with the vector; otherwise `memmove` goes over the size by `lower + 1`. -/
theorem vectorEraseRangeChecked_eq (hlu : lower < upper) (hls : lower < vec.size)
    (hroom : vec.size ≤ upper ∨ vec.size + lower + 1 ≤ vec.capacity) :
    vec.vectorEraseRangeChecked lower upper = some (vec.vectorEraseRange lower upper) ∧
      (vec.vectorEraseRange lower upper).2 = 0 := by
  have hpred : sub32 vec.size 1 = vec.size - 1 := sub32_of_le (by omega)
  have hin : ¬(vec.size - 1 < lower ∨ upper ≤ lower) := by omega
  unfold vectorEraseRangeChecked vectorEraseRange
  rw [hpred, if_neg hin, if_neg hin]
  dsimp only
  by_cases hend : vec.size ≤ upper
  · have hlast : ¬(lower = 0 ∧ vec.size - 1 = vec.size) := by omega
    have hmove : ¬vec.size - 1 < vec.size - 1 := Nat.lt_irrefl _
    simp only [if_pos hend, if_neg hlast, if_neg hmove, Option.map_some, and_self]
  · have hlast : ¬(lower = 0 ∧ upper - 1 = vec.size) := by omega
    have hcount : sub32 vec.size (upper - 1 - lower) = vec.size - (upper - 1 - lower) := sub32_of_le (by omega)
    have hfits : vec.size - (upper - 1 - lower) = 0 ∨
        lower + (vec.size - (upper - 1 - lower)) ≤ vec.capacity ∧
          upper - 1 + 1 + (vec.size - (upper - 1 - lower)) ≤ vec.capacity := by
      right
      omega
    simp only [if_neg hend, if_neg hlast, hcount, memmove, if_pos hfits]
    split_ifs <;> exact ⟨rfl, trivial⟩

theorem eraseRange_erases (h : vec.Wf) (hlu : lower < upper) (hls : lower < vec.size)
    (hroom : vec.size ≤ upper ∨ vec.size + lower + 1 ≤ vec.capacity) :
    vec.Erases lower upper (vec.vectorEraseRangeChecked lower upper) := by
  obtain ⟨heq, hcode⟩ := vectorEraseRangeChecked_eq hlu hls hroom
  have hin : lower < vec.size ∨ upper ≤ lower ∨ lower = 0 := .inl hls
  obtain ⟨hwf, hlist⟩ := h.vectorEraseRange hin
  rw [Nat.max_eq_right (Nat.le_of_lt hlu)] at hlist
  refine ⟨(vec.vectorEraseRange lower upper).1, ?_, hwf, hlist⟩
  rw [heq, ← hcode]

/-- Without room behind the elements `memmove` leaves the allocation. -/
theorem eraseRange_outside (hlu : lower < upper) (hus : upper < vec.size)
    (hroom : vec.capacity < vec.size + lower + 1) :
    vec.vectorEraseRangeChecked lower upper = none := by
  have hpred : sub32 vec.size 1 = vec.size - 1 := sub32_of_le (by omega)
  have hin : ¬(vec.size - 1 < lower ∨ upper ≤ lower) := by omega
  have hend : ¬vec.size ≤ upper := by omega
  have hlast : ¬(lower = 0 ∧ upper - 1 = vec.size) := by omega
  have hmove : upper - 1 < vec.size - 1 := by omega
  have hcount : sub32 vec.size (upper - 1 - lower) = vec.size - (upper - 1 - lower) := sub32_of_le (by omega)
  have hfits : ¬(vec.size - (upper - 1 - lower) = 0 ∨
      lower + (vec.size - (upper - 1 - lower)) ≤ vec.capacity ∧
        upper - 1 + 1 + (vec.size - (upper - 1 - lower)) ≤ vec.capacity) := by
    omega
  unfold vectorEraseRangeChecked
  rw [hpred, if_neg hin]
  dsimp only
  rw [if_neg hend, if_neg hlast, if_pos hmove, hcount, memmove, if_neg hfits]
  rfl

/-- In an empty vector `vec->size-1` is huge: every range is erased, and 0 returned. -/
theorem eraseRange_empty (hsize : vec.size = 0) (hlu : lower < upper) (hl : lower < 4294967296) :
    ∃ vec', vec.vectorEraseRangeChecked lower upper = some (vec', 0) := by
  have hpred : sub32 vec.size 1 = 4294967295 := by rw [hsize]; rfl
  have hin : ¬(4294967295 < lower ∨ upper ≤ lower) := by omega
  have hend : vec.size ≤ upper := by omega
  have hlast : ¬(lower = 0 ∧ 4294967295 = vec.size) := by omega
  unfold vectorEraseRangeChecked
  rw [hpred, if_neg hin]
  dsimp only
  rw [if_pos hend, if_neg hlast, if_neg (Nat.lt_irrefl _)]
  exact ⟨_, rfl⟩

theorem eraseRange_refuses (h : upper ≤ lower ∨ vec.size ≤ lower ∧ vec.size ≠ 0) :
    vec.Refuses (vec.vectorEraseRangeChecked lower upper) := by
  have hin : sub32 vec.size 1 < lower ∨ upper ≤ lower := by
    rcases h with h | ⟨h, hne⟩
    · exact .inr h
    · rw [sub32_of_le (by omega)]
      omega
  exact if_pos hin

theorem erases_not_refuses {result : Option (RawVector α × Int)} (h : vec.Erases lower upper result) :
    ¬ vec.Refuses result := by
  intro hr
  obtain ⟨vec', hresult, -⟩ := h
  rw [Refuses, hresult] at hr
  have hcode : (0 : Int) = -1 := congrArg Prod.snd (Option.some.inj hr)
  omega

theorem eraseRangeRight_iff (h : vec.Wf) (hl : lower < 4294967296) : vec.EraseRangeRight lower upper ↔
    upper ≤ lower ∨ vec.size ≠ 0 ∧ (vec.size ≤ lower ∨ vec.size ≤ upper ∨ vec.size + lower + 1 ≤ vec.capacity) := by
  constructor
  · rintro ⟨herases, hrefuses⟩
    by_contra hno
    rw [not_or] at hno
    have hlu : lower < upper := by omega
    by_cases hsize : vec.size = 0
    · obtain ⟨vec', hresult⟩ := eraseRange_empty hsize hlu hl
      have hr := hrefuses (by omega)
      rw [hresult] at hr
      have hcode : (0 : Int) = -1 := congrArg Prod.snd (Option.some.inj hr)
      omega
    · obtain ⟨vec', hresult, -⟩ := herases (by omega)
      rw [eraseRange_outside hlu (by omega) (by omega)] at hresult
      cases hresult
  · intro hcond
    refine ⟨fun hin => ?_, fun hout => ?_⟩
    · exact eraseRange_erases h hin.1 hin.2 (by omega)
    · exact eraseRange_refuses (by omega)

/-! ## One element -/

/-- Before the last element, what is erased is one element. -/
theorem erase_erases (h : vec.Wf) (hi : index + 1 < vec.size) :
    vec.Erases index (index + 1) (vec.vectorErase index) := by
  have hpred : sub32 vec.size 1 = vec.size - 1 := sub32_of_le (by omega)
  have hcount : sub32 vec.size (index + 1) = vec.size - (index + 1) := sub32_of_le (by omega)
  have hle := h.size_le
  have hfits : vec.size - (index + 1) = 0 ∨ index + (vec.size - (index + 1)) ≤ vec.capacity ∧
      index + 1 + (vec.size - (index + 1)) ≤ vec.capacity := by omega
  refine ⟨{ vec with
    data := moveSlots vec.data index (index + 1) (vec.size - (index + 1)), size := vec.size - 1 }, ?_, ?_, ?_⟩
  · unfold vectorErase
    rw [hpred, if_neg (by omega), if_pos (by omega), hcount, memmove, if_pos hfits, Option.map_some]
  · refine ⟨by dsimp only; omega, fun i hin => ?_⟩
    dsimp only [moveSlots] at hin ⊢
    split
    · exact h.written _ (by omega)
    · exact h.written _ (by omega)
  · -- `vector_erase_range` moves more slots, but the same elements
    have hsize : index < vec.size ∨ index + 1 ≤ index ∨ index = 0 := .inl (by omega)
    have hrange := (h.vectorEraseRange hsize).2
    rw [Nat.max_eq_right (by omega)] at hrange
    rw [← hrange]
    have hin : ¬(vec.size - 1 < index ∨ index + 1 ≤ index) := by omega
    have hend : ¬vec.size ≤ index + 1 := by omega
    have hlast : ¬(index = 0 ∧ index + 1 - 1 = vec.size) := by omega
    have hmove : index + 1 - 1 < vec.size - 1 := by omega
    have hone : sub32 vec.size (index + 1 - 1 - index + 1) = vec.size - 1 := by
      rw [sub32_of_le (by omega)]
      omega
    unfold vectorEraseRange
    rw [hpred, if_neg hin]
    dsimp only [toList]
    rw [if_neg hend, if_neg hlast, if_pos hmove]
    dsimp only
    rw [hone]
    apply slots_congr
    intro i hi
    simp only [moveSlots, Nat.add_sub_cancel]
    split_ifs
    · rfl
    · omega
    · omega
    · rfl

theorem erase_refuses
    (h : vec.size ≠ 0 ∧ vec.size ≤ index + 1 ∨ 4294967295 ≤ index ∧ vec.size < 4294967296) :
    vec.Refuses (vec.vectorErase index) := by
  apply if_pos
  unfold sub32
  split_ifs <;> omega

/-- In an empty vector the slots are moved from behind the last index there is. -/
theorem erase_empty (hsize : vec.size = 0) (hi : index < 4294967295) (hcap : vec.capacity < 4294967296) :
    vec.vectorErase index = none := by
  have hpred : sub32 vec.size 1 = 4294967295 := by rw [hsize]; rfl
  have hcount : sub32 vec.size (index + 1) = 4294967295 - index := by
    rw [hsize, sub32, if_neg (by omega)]
    omega
  have hfits : ¬(4294967295 - index = 0 ∨ index + (4294967295 - index) ≤ vec.capacity ∧
      index + 1 + (4294967295 - index) ≤ vec.capacity) := by omega
  unfold vectorErase
  rw [hpred, if_neg (by omega), if_pos (by omega), hcount, memmove, if_neg hfits]
  rfl

theorem eraseRight_iff (h : vec.Wf) (hcap : vec.capacity < 4294967296) (hi : index < 4294967296) :
    vec.EraseRight index ↔ if vec.size = 0 then index = 4294967295 else index + 1 ≠ vec.size := by
  split
  · rename_i hsize
    constructor
    · intro hright
      by_contra hne
      have hr := hright.2 (by omega)
      rw [Refuses, erase_empty hsize (by omega) hcap] at hr
      cases hr
    · intro hmax
      exact ⟨fun hin => absurd hin (by omega), fun _ => erase_refuses (.inr (by have := h.size_le; omega))⟩
  · rename_i hsize
    constructor
    · intro hright hlast
      exact erases_not_refuses (hright.1 (by omega)) (erase_refuses (.inl ⟨hsize, by omega⟩))
    · intro hne
      exact ⟨fun hin => erase_erases h (by omega), fun hout => erase_refuses (.inl ⟨hsize, by omega⟩)⟩

theorem outcome_erases {result : Option (RawVector α × Int)} (h : vec.Erases lower upper result) :
    outcome result = some (vec.toList.take lower ++ vec.toList.drop upper, 0) := by
  obtain ⟨vec', rfl, -, hlist⟩ := h
  rw [outcome, Option.map_some, hlist]

theorem outcome_refuses {result : Option (RawVector α × Int)} (h : vec.Refuses result) :
    outcome result = some (vec.toList, -1) := by
  rw [h]
  rfl

theorem eraseAgrees_iff (h : vec.Wf) (hcap : vec.capacity < 4294967296) (hi : index < 4294967296) :
    vec.EraseAgrees index ↔ if vec.size = 0 then index = 4294967295
      else vec.size ≤ index ∨ index + 1 < vec.size ∧ vec.size + index + 1 ≤ vec.capacity := by
  have hle := h.size_le
  unfold EraseAgrees
  by_cases hmax : index = 4294967295
  · subst hmax
    have hnext : (4294967295 + 1) % 4294967296 = 0 := by decide
    have hrange : vec.Refuses (vec.vectorEraseRangeChecked 4294967295 0) := eraseRange_refuses (.inl (Nat.zero_le _))
    rw [hnext, outcome_refuses (erase_refuses (.inr ⟨Nat.le_refl _, by omega⟩)), outcome_refuses hrange]
    simp only [true_iff]
    split_ifs
    left
    omega
  · rw [Nat.mod_eq_of_lt (by omega)]
    by_cases hsize : vec.size = 0
    · obtain ⟨vec', hrange⟩ := eraseRange_empty hsize (Nat.lt_succ_self index) hi
      rw [if_pos hsize, erase_empty hsize (by omega) hcap, hrange]
      exact iff_of_false (fun h => by cases h) hmax
    · rw [if_neg hsize]
      by_cases hout : vec.size ≤ index
      · rw [outcome_refuses (erase_refuses (.inl ⟨hsize, by omega⟩)),
          outcome_refuses (eraseRange_refuses (.inr ⟨hout, hsize⟩))]
        exact iff_of_true rfl (.inl hout)
      · by_cases hlast : index + 1 = vec.size
        · -- the last element is refused by the one and erased by the other
          have hrange := eraseRange_erases h (Nat.lt_succ_self index) (by omega) (.inl (by omega))
          rw [outcome_refuses (erase_refuses (.inl ⟨hsize, by omega⟩)), outcome_erases hrange]
          refine iff_of_false (fun he => ?_) (by omega)
          have hcode : (-1 : Int) = 0 := congrArg Prod.snd (Option.some.inj he)
          omega
        · rw [outcome_erases (erase_erases h (by omega))]
          by_cases hroom : vec.size + index + 1 ≤ vec.capacity
          · rw [outcome_erases (eraseRange_erases h (Nat.lt_succ_self index) (by omega) (.inr hroom))]
            exact iff_of_true rfl (.inr ⟨by omega, hroom⟩)
          · rw [eraseRange_outside (Nat.lt_succ_self index) (by omega) (by omega)]
            exact iff_of_false (fun he => by cases he) (by omega)

/-- Erasing is removal from the list, inside of the allocation: one element wherever it is not the last one and the
    vector is not empty; a range when the vector is not empty and the range is refused, ends with the vector, or has
    `lower + 1` slots of room behind the elements; and the two agree where both are right. -/
theorem erase_exact (vec : RawVector α) (h : vec.Wf) (hcap : vec.capacity < 4294967296) :
    (∀ index < 4294967296, vec.EraseRight index ↔
        if vec.size = 0 then index = 4294967295 else index + 1 ≠ vec.size) ∧
      (∀ lower < 4294967296, ∀ upper < 4294967296, vec.EraseRangeRight lower upper ↔ upper ≤ lower ∨
        vec.size ≠ 0 ∧ (vec.size ≤ lower ∨ vec.size ≤ upper ∨ vec.size + lower + 1 ≤ vec.capacity)) ∧
      ∀ index < 4294967296, vec.EraseAgrees index ↔ if vec.size = 0 then index = 4294967295
        else vec.size ≤ index ∨ index + 1 < vec.size ∧ vec.size + index + 1 ≤ vec.capacity := by
  refine ⟨fun index hi => eraseRight_iff h hcap hi, fun lower hl upper _ => eraseRangeRight_iff h hl, ?_⟩
  exact fun index hi => eraseAgrees_iff h hcap hi

/-- A vector that is full with one element. -/
def single : RawVector Nat := ⟨1, 1, fun _ => some 7⟩

theorem single_wf : single.Wf := ⟨Nat.le_refl _, fun _ _ => rfl⟩

theorem erase_exact_single : single.EraseRangeRight 0 1 ∧ single.EraseRight 1 := by
  obtain ⟨herase, hrange, -⟩ := erase_exact single single_wf (by decide)
  exact ⟨(hrange 0 (by decide) 1 (by decide)).mpr (.inr ⟨by decide, .inr (.inl (by decide))⟩),
    (herase 1 (by decide)).mpr (by decide)⟩

/-- The only element of a vector is not erased. -/
theorem single_kept : single.Wf ∧ ¬ single.EraseRight 0 := by
  refine ⟨single_wf, fun hright => ?_⟩
  obtain ⟨vec', hresult, -⟩ := hright.1 (by decide)
  have hrefused : single.vectorErase 0 = some (single, -1) := rfl
  rw [hrefused] at hresult
  have hcode : (-1 : Int) = 0 := congrArg Prod.snd (Option.some.inj hresult)
  exact absurd hcode (by decide)

/-! ## Elements that match -/

/-- More steps than there are slots left make no difference to the loop of `vector_remove_if`. -/
theorem removeIfLoop_enough {cmp : α → α → Int} {x : α} {size fuel fuel' i first : Nat} {data : Nat → Option α}
    (hi : i < size) (hfuel : size ≤ i + fuel) (hfuel' : size ≤ i + fuel') :
    removeIfLoop cmp x size fuel i first data = removeIfLoop cmp x size fuel' i first data := by
  induction fuel generalizing fuel' i first data with
  | zero => omega
  | succ fuel ih =>
    cases fuel' with
    | zero => omega
    | succ fuel' =>
      unfold removeIfLoop
      split_ifs with hend hkeep
      · rfl
      · exact ih (by omega) (by omega) (by omega)
      · exact ih (by omega) (by omega) (by omega)

/-- `vector_remove_if` and `vector_erase_range` up to `vector_count` leave the elements that do not match. -/
theorem erase_if_filter (vec : RawVector α) (h : vec.Wf) (x : α) (cmp : α → α → Int) : ∃ vec' code,
    (vec.vectorRemoveIf x cmp).1.vectorEraseRangeChecked (vec.vectorRemoveIf x cmp).2
        (vec.vectorRemoveIf x cmp).1.vectorCount = some (vec', code) ∧
      vec'.Wf ∧ vec'.toList = vec.toList.filter (fun y => decide (cmp x y ≠ 0)) := by
  obtain ⟨hw, hsize, hle, hs⟩ := h.vectorRemoveIf x cmp
  rw [← hsize] at hle
  rw [← hw.take_toList hle] at hs
  unfold vectorCount
  by_cases hall : (vec.vectorRemoveIf x cmp).2 < (vec.vectorRemoveIf x cmp).1.size
  · obtain ⟨vec', hresult, hwf, hlist⟩ := eraseRange_erases hw hall hall (.inl (Nat.le_refl _))
    refine ⟨vec', 0, hresult, hwf, ?_⟩
    rw [hlist, hs, List.drop_eq_nil_of_le (by rw [hw.length_toList]), List.append_nil]
  · -- nothing matched, and the empty range is refused
    refine ⟨_, -1, eraseRange_refuses (.inl (Nat.le_of_not_lt hall)), hw, ?_⟩
    rw [← hs, List.take_of_length_le (by rw [hw.length_toList]; omega)]

/-- Every other element of a full vector matches. -/
def mixed : RawVector Int := ⟨3, 3, fun i => some i⟩

theorem mixed_wf : mixed.Wf := ⟨Nat.le_refl _, fun _ _ => rfl⟩

theorem erase_if_filter_mixed : ∃ vec' code,
    (mixed.vectorRemoveIf 1 (fun x y => x - y)).1.vectorEraseRangeChecked
        (mixed.vectorRemoveIf 1 (fun x y => x - y)).2
        (mixed.vectorRemoveIf 1 (fun x y => x - y)).1.vectorCount = some (vec', code) ∧
      vec'.Wf ∧ vec'.toList = mixed.toList.filter (fun y => decide ((1 : Int) - y ≠ 0)) :=
  erase_if_filter mixed mixed_wf 1 (fun x y => x - y)

end RawVector

end DSLink
