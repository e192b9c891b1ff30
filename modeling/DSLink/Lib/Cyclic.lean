import Mathlib.Data.List.Basic
import Mathlib.Data.List.Range

/-!
# `Lib.Cyclic` — numbers drawn from a counter that wraps

A counter with the values `1..p` starts at 0 and gives `1, 2, …, p, 1, …`. `IsCycle p l` says that `l` is what was
drawn so far. Two draws that are less than `p` apart are different.
-/

namespace Cyclic

/-- The value after `n`: past `p` the counter begins at 1 again. -/
def next (p n : Nat) : Nat := (if p ≤ n then 0 else n) + 1

/-- `l` is the sequence of the first draws. -/
def IsCycle (p : Nat) (l : List Nat) : Prop := l = (List.range l.length).map (fun i => i % p + 1)

/-- The counter behind the draws. -/
def counter (l : List Nat) : Nat := l.getLast?.getD 0

variable {p : Nat} {l : List Nat}

theorem isCycle_nil : IsCycle p [] := rfl

theorem IsCycle.getElem (h : IsCycle p l) {i : Nat} (hi : i < l.length) : l[i] = i % p + 1 := by
  have hget : l[i]? = some (i % p + 1) := by
    rw [h]
    simp [hi]
  rw [List.getElem?_eq_getElem hi] at hget
  exact Option.some.inj hget

theorem IsCycle.counter_eq (h : IsCycle p l) (hl : l ≠ []) : counter l = (l.length - 1) % p + 1 := by
  unfold counter
  rw [List.getLast?_eq_getElem?, List.getElem?_eq_getElem (Nat.sub_lt (List.length_pos_iff.mpr hl) Nat.one_pos),
    Option.getD_some, h.getElem]

/-- Another draw goes on with the sequence. -/
theorem IsCycle.draw (h : IsCycle p l) (hp : 0 < p) : IsCycle p (l ++ [next p (counter l)]) := by
  have hnext : next p (counter l) = l.length % p + 1 := by
    by_cases hl : l = []
    · subst hl
      simp [counter, next, Nat.ne_of_gt hp]
    · have hpos := List.length_pos_iff.mpr hl
      rw [h.counter_eq hl, next]
      obtain ⟨n, hn⟩ := Nat.exists_eq_succ_of_ne_zero (Nat.ne_of_gt hpos)
      have hlt := Nat.mod_lt n hp
      rw [hn, Nat.succ_sub_one, Nat.succ_eq_add_one, Nat.add_mod n 1 p]
      split
      · -- the counter is at `p`
        obtain heq : n % p = p - 1 := by omega
        by_cases h1 : p = 1
        · subst h1
          simp [Nat.mod_one]
        · rw [heq, Nat.mod_eq_of_lt (by omega : 1 < p), Nat.sub_add_cancel hp, Nat.mod_self]
      · rw [Nat.mod_eq_of_lt (by omega : 1 < p), Nat.mod_eq_of_lt (by omega : n % p + 1 < p)]
  unfold IsCycle
  rw [List.length_append, List.length_singleton, List.range_succ, List.map_append, ← h, hnext]
  rfl

theorem counter_draw (n : Nat) : counter (l ++ [n]) = n := by
  simp [counter]

theorem IsCycle.bounds (h : IsCycle p l) (hp : 0 < p) {n : Nat} (hn : n ∈ l) : 0 < n ∧ n ≤ p := by
  obtain ⟨i, hi, rfl⟩ := List.getElem_of_mem hn
  rw [h.getElem hi]
  exact ⟨Nat.succ_pos _, Nat.mod_lt i hp⟩

/-- Draws that are less than `p` apart are different. -/
theorem IsCycle.apart (h : IsCycle p l) {i j : Nat} (hij : i < j) (hi : i < l.length) (hj : j < l.length)
    (hp : j - i < p) : l[i] ≠ l[j] := by
  rw [h.getElem, h.getElem]
  intro heq
  have hmod : (j - i) % p = 0 := Nat.sub_mod_eq_zero_of_mod_eq (Nat.succ.inj heq).symm
  rw [Nat.mod_eq_of_lt hp] at hmod
  exact absurd hmod (Nat.ne_of_gt (Nat.sub_pos_of_lt hij))

end Cyclic
