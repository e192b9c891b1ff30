import DSLink.Lib.AssocMap
import DSLink.Lib.Run
import Mathlib.Logic.Function.Basic

/-!
# `Lib.Replay` — a view that is kept by changes

Somebody who gets changes of single keys, each with a new value or with none for a key that is gone, replays them
into a view. The last change of a key decides; a list with one change of each key is a map.

A view follows a source over a run if and only if every step sends the changes that the source makes.

## Contents
- `replay`, `replay_append`, `replay_of_ne`.
- `replay_entries`, `replay_filter`: the changes that set the entries of a map.
- `forall_prefix_iff_runOk`: what holds all along a run.
-/

section Replay

variable {K V : Type} [DecidableEq K]

/-- The changes replayed into a view, the first one first. -/
def replay (view : K → Option V) (changes : List (K × Option V)) : K → Option V :=
  changes.foldl (fun view c => Function.update view c.1 c.2) view

variable {view : K → Option V} {changes changes' : List (K × Option V)} {k : K} {l : List (K × V)}

@[simp] theorem replay_nil : replay view [] = view := rfl

@[simp] theorem replay_cons {c : K × Option V} :
    replay view (c :: changes) = replay (Function.update view c.1 c.2) changes := rfl

theorem replay_append : replay view (changes ++ changes') = replay (replay view changes) changes' :=
  List.foldl_append

/-- The changes that set the entries of a map. -/
theorem replay_entries (hl : (l.map Prod.fst).Nodup) :
    replay view (l.map (fun e => (e.1, some e.2))) k = (AssocMap.lookupIn k l).or (view k) := by
  induction l generalizing view with
  | nil => rfl
  | cons e l ih =>
    obtain ⟨k', a⟩ := e
    obtain ⟨hk', hl⟩ := List.nodup_cons.mp hl
    rw [List.map_cons, replay_cons, ih hl]
    by_cases h : k' = k
    · subst h
      rw [AssocMap.lookupIn_eq_none hk', Function.update_self]
      simp [AssocMap.lookupIn]
    · rw [Function.update_of_ne (Ne.symm h)]
      simp [AssocMap.lookupIn, h]

/-- The same for the entries whose keys are wanted. -/
theorem replay_filter {p : K → Bool} (hl : (l.map Prod.fst).Nodup) :
    replay view ((l.filter (fun e => p e.1)).map (fun e => (e.1, some e.2))) k =
      (if p k then AssocMap.lookupIn k l else none).or (view k) := by
  have hfilter := AssocMap.get_filterKeys ⟨l, hl⟩ p k
  rw [replay_entries (hl.sublist (List.filter_sublist.map Prod.fst))]
  exact congrArg (fun o => Option.or o (view k)) hfilter

end Replay

section

variable {σ ε : Type} {step : σ → ε → Option σ} {ok : σ → ε → Prop}

/-- What a step keeps if and only if it meets a condition holds all along a run if and only if every step does. -/
theorem forall_prefix_iff_runOk (inv good : σ → Prop)
    (hstep : ∀ s e s', inv s → good s → step s e = some s' → inv s' ∧ (good s' ↔ ok s e)) {s t : σ} {es : List ε}
    (hi : inv s) (hg : good s) (hrun : runFrom step s es = some t) :
    (∀ es' s', es' <+: es → runFrom step s es' = some s' → good s') ↔ RunOk step ok s es := by
  induction es generalizing s with
  | nil =>
    constructor
    · exact fun _ => True.intro
    · intro _ es' s' hp hs'
      obtain rfl := List.prefix_nil.mp hp
      cases hs'
      exact hg
  | cons e es ih =>
    obtain ⟨u, hu, hrest⟩ := Option.bind_eq_some_iff.mp hrun
    obtain ⟨hiu, hgu⟩ := hstep s e u hi hg hu
    constructor
    · intro h
      have hgood : good u := h [e] u ⟨es, rfl⟩ (by rw [runFrom, hu]; rfl)
      refine ⟨hgu.mp hgood, ?_⟩
      rintro s' hs'
      obtain rfl := Option.some.inj (hu.symm.trans hs')
      apply (ih hiu hgood hrest).mp
      intro es' s' hp hs'
      apply h (e :: es') s' (List.cons_prefix_cons.mpr ⟨rfl, hp⟩)
      rw [runFrom, hu]
      exact hs'
    · rintro ⟨hok, hoks⟩ es' s' hp hs'
      have hgood := hgu.mpr hok
      cases es' with
      | nil =>
        cases hs'
        exact hg
      | cons e' es' =>
        obtain ⟨rfl, htail⟩ := List.cons_prefix_cons.mp hp
        rw [runFrom, hu] at hs'
        exact (ih hiu hgood hrest).mpr (hoks u hu) es' s' htail hs'

end
