import Mathlib.Logic.Function.Basic
import Mathlib.Order.BooleanAlgebra.Set

/-!
# `Lib.View` — views that are patched by hand

An owner may keep a view: for every key a copy of what a source gives. A program builds a view once and patches it
when the source moves. `Current E` says that every open view agrees with its source but for the places in `E`. A move
of the source adds places, a patch takes one away, and opening, closing or losing a view adds none.
-/

section View

variable {P K V : Type}

/-- The views that are open, by owner. -/
abbrev Views (P K V : Type) := P → Option (K → V)

/-- Every open view agrees with the source outside of `E`. -/
def Current (E : Set (P × K)) (views : Views P K V) (source : P → K → V) : Prop :=
  ∀ p view, views p = some view → ∀ k, (p, k) ∉ E → view k = source p k

variable {E E' : Set (P × K)} {views views' : Views P K V} {source source' : P → K → V}

/-- More places may be behind. -/
theorem Current.mono (h : Current E views source) (hE : E ⊆ E') : Current E' views source :=
  fun p view hv k hk => h p view hv k (fun hk' => hk (hE hk'))

/-- A place whose view is not open cannot be behind. -/
theorem Current.shrink (h : Current E views source) (hE : ∀ p k, (p, k) ∈ E → (p, k) ∉ E' → views p = none) :
    Current E' views source := by
  intro p view hv k hk
  apply h p view hv k
  intro hE'
  rw [hE p k hE' hk] at hv
  cases hv

/-- The source moves, and views are lost. -/
theorem Current.move (h : Current E views source) (hviews : ∀ p, views' p = none ∨ views' p = views p)
    (hsource : ∀ p k, (p, k) ∉ E' → views' p ≠ none → source' p k = source p k) :
    Current (E ∪ E') views' source' := by
  intro p view hv k hk
  rw [Set.mem_union, not_or] at hk
  rw [hsource p k hk.2 (by rw [hv]; simp)]
  apply h p view _ k hk.1
  rcases hviews p with hn | he
  · rw [hn] at hv
    cases hv
  · rw [← he, hv]

/-- The places that were behind turn out right. -/
theorem Current.settle (h : Current E views source)
    (hE : ∀ p k, (p, k) ∈ E → ∀ view, views p = some view → view k = source p k) : Current ∅ views source := by
  intro p view hv k _
  by_cases hk : (p, k) ∈ E
  · exact hE p k hk view hv
  · exact h p view hv k hk

/-- A view is opened as the source is. -/
theorem Current.open [DecidableEq P] (h : Current E views source) (p : P) :
    Current E (Function.update views p (some (source p))) source := by
  intro q view hv k hk
  by_cases hq : q = p
  · subst hq
    rw [Function.update_self] at hv
    cases hv
    rfl
  · rw [Function.update_of_ne hq] at hv
    exact h q view hv k hk

/-- One place of one view is written. It is behind no longer where the source's value was written. -/
theorem Current.patch [DecidableEq P] [DecidableEq K] (h : Current E views source) {p : P} {view : K → V}
    (hp : views p = some view) (k : K) (v : V) (hE : ∀ q l, (q, l) ∈ E → (q, l) ∈ E' ∨ (q, l) = (p, k))
    (hv : v = source p k ∨ (p, k) ∈ E') :
    Current E' (Function.update views p (some (Function.update view k v))) source := by
  intro q view' hview l hl
  by_cases hq : q = p
  · subst hq
    rw [Function.update_self] at hview
    cases hview
    by_cases hk : l = k
    · subst hk
      rw [Function.update_self]
      exact hv.resolve_right hl
    · rw [Function.update_of_ne hk]
      refine h q view hp l (fun hm => ?_)
      rcases hE q l hm with hm | hm
      · exact hl hm
      · exact hk (congrArg Prod.snd hm)
  · rw [Function.update_of_ne hq] at hview
    refine h q view' hview l (fun hm => ?_)
    rcases hE q l hm with hm | hm
    · exact hl hm
    · exact hq (congrArg Prod.fst hm)

end View
