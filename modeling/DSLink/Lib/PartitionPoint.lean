import Mathlib.Order.Basic
import Mathlib.Data.Nat.Basic

/-!
# `Lib.PartitionPoint` — the halving search for the end of a true-prefix

`partitionPoint p fuel first count` looks for the first index of `[first, first + count)` at which the test
`p` fails, by halving `count`. The test need not fall only once: `partitionPoint_eq_iff` says at which indices
it has to be right for the search to end at a given place.

## Contents
- `partitionPoint`, and that it stays in its range.
- `partitionPoint_spec`: a test that only falls once.
- `probes`: the indices the search compares on its way to a place.
-/

/-- Halve the range `[first, first + count)` until it is empty. `fuel` bounds the number of probes. -/
def partitionPoint (p : Nat → Bool) : Nat → Nat → Nat → Nat
  | 0, first, _ => first
  | fuel + 1, first, count =>
    if count = 0 then first
    else if p (first + count / 2) then
      partitionPoint p fuel (first + count / 2 + 1) (count - (count / 2 + 1))
    else partitionPoint p fuel first (count / 2)

/-- The indices that are compared on the way to `m`. -/
def probes (m : Nat) : Nat → Nat → Nat → List Nat
  | 0, _, _ => []
  | fuel + 1, first, count =>
    if count = 0 then []
    else (first + count / 2) ::
      if first + count / 2 < m then probes m fuel (first + count / 2 + 1) (count - (count / 2 + 1))
      else probes m fuel first (count / 2)

theorem partitionPoint_bounds {p : Nat → Bool} (fuel first count : Nat) :
    first ≤ partitionPoint p fuel first count ∧ partitionPoint p fuel first count ≤ first + count := by
  induction fuel generalizing first count with
  | zero => exact ⟨Nat.le_refl _, Nat.le_add_right _ _⟩
  | succ fuel ih =>
    unfold partitionPoint
    split_ifs with h0 hp
    · omega
    · have := ih (first + count / 2 + 1) (count - (count / 2 + 1))
      omega
    · have := ih first (count / 2)
      omega

theorem mem_probes_lt {m i : Nat} {fuel first count : Nat} (h : i ∈ probes m fuel first count) :
    i < first + count := by
  induction fuel generalizing first count with
  | zero => simp [probes] at h
  | succ fuel ih =>
    unfold probes at h
    split_ifs at h with h0 hm
    · simp at h
    · rcases List.mem_cons.mp h with rfl | h
      · omega
      · have := ih h
        omega
    · rcases List.mem_cons.mp h with rfl | h
      · omega
      · have := ih h
        omega

/-- The search ends at `m` exactly when each of its comparisons on the way there is right. -/
theorem partitionPoint_eq_iff {p : Nat → Bool} {m : Nat} (fuel first count : Nat) (hc : count ≤ fuel)
    (hlo : first ≤ m) (hhi : m ≤ first + count) :
    partitionPoint p fuel first count = m ↔ ∀ i ∈ probes m fuel first count, (p i = true ↔ i < m) := by
  induction fuel generalizing first count with
  | zero =>
    have : first = m := by omega
    simp [partitionPoint, probes, this]
  | succ fuel ih =>
    unfold partitionPoint probes
    by_cases h0 : count = 0
    · have : first = m := by omega
      simp [h0, this]
    · rw [if_neg h0, if_neg h0, List.forall_mem_cons]
      by_cases hm : first + count / 2 < m
      · rw [if_pos hm]
        cases hp : p (first + count / 2) with
        | true =>
          rw [if_pos rfl, ih _ _ (by omega) (by omega) (by omega)]
          simp [hm]
        | false =>
          -- the search turns left of `m` and does not come back
          have := partitionPoint_bounds (p := p) fuel first (count / 2)
          simp only [Bool.false_eq_true, if_false, hm, iff_true, false_and, iff_false]
          omega
      · rw [if_neg hm]
        cases hp : p (first + count / 2) with
        | true =>
          have := partitionPoint_bounds (p := p) fuel (first + count / 2 + 1) (count - (count / 2 + 1))
          simp only [if_true, hm, iff_false, not_true_eq_false, false_and]
          omega
        | false =>
          rw [if_neg (by simp), ih _ _ (by omega) (by omega) (by omega)]
          simp [hm]

/-- A test that only falls once is true up to the end of the search, and false from there on. -/
theorem partitionPoint_spec {p : Nat → Bool} {lo hi : Nat}
    (hp : ∀ i j, lo ≤ i → i < j → j < hi → p j = true → p i = true) (fuel first count : Nat) (hc : count ≤ fuel)
    (hlo : lo ≤ first) (hhi : first + count ≤ hi) (hbelow : ∀ i, lo ≤ i → i < first → p i = true)
    (habove : ∀ i, first + count ≤ i → i < hi → p i = false) :
    (∀ i, lo ≤ i → i < partitionPoint p fuel first count → p i = true) ∧
      ∀ i, partitionPoint p fuel first count ≤ i → i < hi → p i = false := by
  induction fuel generalizing first count with
  | zero =>
    obtain rfl : count = 0 := by omega
    exact ⟨hbelow, habove⟩
  | succ fuel ih =>
    unfold partitionPoint
    split_ifs with h0 hm
    · subst h0
      exact ⟨hbelow, habove⟩
    · -- the probe and all before it are true
      apply ih _ _ (by omega) (by omega) (by omega)
      · intro i hi hlt
        by_cases he : i = first + count / 2
        · rw [he]
          exact hm
        · exact hp i (first + count / 2) hi (by omega) (by omega) hm
      · intro i hi hlt
        exact habove i (by omega) hlt
    · -- the probe and all behind it are false
      apply ih _ _ (by omega) hlo (by omega) hbelow
      intro i hi hlt
      by_cases he : i = first + count / 2
      · rw [he]
        simpa using hm
      · by_contra hi'
        exact hm (hp (first + count / 2) i (by omega) (by omega) hlt (by simpa using hi'))
