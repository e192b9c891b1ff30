import Mathlib.Data.List.Basic

/-!
# `Lib.Run` — runs of a partial step function

`step s e = none` is a step the program does not survive (an absent or freed object was dereferenced).
`Reach step ok init` collects the states of all runs from `init` whose steps all satisfy `ok`; the guard
`ok` looks at the state before the step and the event only. `Reach.invariant` is the induction rule every
claim about runs goes through, and `Reach.of_run` turns an evaluated run into a reachable state.
-/

section Run

variable {σ ε : Type}

/-- Execute a list of events. -/
def runFrom (step : σ → ε → Option σ) : σ → List ε → Option σ
  | s, [] => some s
  | s, e :: es => (step s e).bind (fun s' => runFrom step s' es)

/-- The states reached from `init` by steps that all satisfy `ok`. -/
inductive Reach (step : σ → ε → Option σ) (ok : σ → ε → Prop) (init : σ → Prop) : σ → Prop
  | start {s : σ} (h : init s) : Reach step ok init s
  | next {s s' : σ} {e : ε} (h : Reach step ok init s) (hok : ok s e) (hs : step s e = some s') :
      Reach step ok init s'

variable {step : σ → ε → Option σ} {ok ok' : σ → ε → Prop} {init : σ → Prop}

/-- What holds initially and is kept by every guarded step holds in every state reached. -/
theorem Reach.invariant (inv : σ → Prop) (h0 : ∀ s, init s → inv s)
    (hs : ∀ s e s', inv s → ok s e → step s e = some s' → inv s') {s : σ}
    (h : Reach step ok init s) : inv s := by
  induction h with
  | start h => exact h0 _ h
  | next _ hok hstep ih => exact hs _ _ _ ih hok hstep

/-- A weaker guard reaches at least as much. -/
theorem Reach.mono (himp : ∀ s e, ok s e → ok' s e) {s : σ} (h : Reach step ok init s) :
    Reach step ok' init s := by
  induction h with
  | start h => exact .start h
  | next _ hok hstep ih => exact .next ih (himp _ _ hok) hstep

/-- Fewer starts. -/
theorem Reach.of_init {init' : σ → Prop} (himp : ∀ s, init s → init' s) {s : σ} (h : Reach step ok init s) :
    Reach step ok init' s := by
  induction h with
  | start h => exact .start (himp _ h)
  | next _ hok hstep ih => exact .next ih hok hstep

/-- Runs compose. -/
theorem Reach.trans {s t u : σ} (h : Reach step ok (· = s) t) (h' : Reach step ok (· = t) u) :
    Reach step ok (· = s) u := by
  induction h' with
  | start h' => exact h' ▸ h
  | next _ hok hstep ih => exact .next ih hok hstep

/-- One step as a run. -/
theorem Reach.single {s s' : σ} {e : ε} (hok : ok s e) (hs : step s e = some s') :
    Reach step ok (· = s) s' := .next (.start rfl) hok hs

/-- What every round of a loop over a list keeps holds at its end. -/
theorem foldlM_invariant {α : Type} (inv : σ → Prop) {f : σ → α → Option σ} {l : List α}
    (hf : ∀ s, ∀ a ∈ l, ∀ s', inv s → f s a = some s' → inv s') {s s' : σ} (h : l.foldlM f s = some s')
    (h0 : inv s) : inv s' := by
  induction l generalizing s with
  | nil =>
    cases h
    exact h0
  | cons a l ih =>
    simp only [List.foldlM_cons, Option.bind_eq_bind, Option.bind_eq_some_iff] at h
    obtain ⟨t, ht, h⟩ := h
    apply ih (fun s b hb => hf s b (List.mem_cons_of_mem _ hb)) h
    exact hf s a List.mem_cons_self t h0 ht

/-- A loop whose rounds are all defined and keep the invariant is defined. -/
theorem foldlM_total {α : Type} (inv : σ → Prop) {f : σ → α → Option σ} {l : List α}
    (hf : ∀ s, ∀ a ∈ l, inv s → ∃ s', f s a = some s' ∧ inv s') {s : σ} (h0 : inv s) :
    ∃ s', l.foldlM f s = some s' ∧ inv s' := by
  induction l generalizing s with
  | nil => exact ⟨s, rfl, h0⟩
  | cons a l ih =>
    obtain ⟨t, ht, h1⟩ := hf s a List.mem_cons_self h0
    obtain ⟨s', hs', h2⟩ := ih (fun s b hb => hf s b (List.mem_cons_of_mem _ hb)) h1
    refine ⟨s', ?_, h2⟩
    rw [List.foldlM_cons, ht]
    exact hs'

/-- A loop whose invariant also speaks of the rounds that are still to come. -/
theorem foldlM_rest {α : Type} (inv : List α → σ → Prop) {f : σ → α → Option σ}
    (hf : ∀ s a l s', inv (a :: l) s → f s a = some s' → inv l s') {l : List α} {s s' : σ}
    (h : l.foldlM f s = some s') (h0 : inv l s) : inv [] s' := by
  induction l generalizing s with
  | nil =>
    cases h
    exact h0
  | cons a l ih =>
    simp only [List.foldlM_cons, Option.bind_eq_bind, Option.bind_eq_some_iff] at h
    obtain ⟨t, ht, h⟩ := h
    exact ih h (hf s a l t h0 ht)

/-- A loop is defined if and only if each of its rounds meets what it needs. -/
theorem foldlM_isSome {α : Type} (inv : List α → σ → Prop) {need : α → Prop} {f : σ → α → Option σ}
    (hf : ∀ s a l, inv (a :: l) s → ((f s a).isSome ↔ need a) ∧ ∀ s', f s a = some s' → inv l s') {l : List α} {s : σ}
    (h0 : inv l s) : (l.foldlM f s).isSome ↔ ∀ a ∈ l, need a := by
  induction l generalizing s with
  | nil => exact ⟨fun _ a ha => absurd ha List.not_mem_nil, fun _ => rfl⟩
  | cons a l ih =>
    obtain ⟨ha, hnext⟩ := hf s a l h0
    rw [List.foldlM_cons, List.forall_mem_cons, ← ha]
    cases hs : f s a with
    | none => simp
    | some s' =>
      show (l.foldlM f s').isSome ↔ _
      rw [ih (hnext s' hs)]
      simp

/-- Every step of a run, read in order, satisfies the guard. -/
def RunOk (step : σ → ε → Option σ) (ok : σ → ε → Prop) : σ → List ε → Prop
  | _, [] => True
  | s, e :: es => ok s e ∧ ∀ s', step s e = some s' → RunOk step ok s' es

/-- The end of a guarded run is reached. -/
theorem Reach.of_run {s s' : σ} {es : List ε} (h : Reach step ok init s)
    (hok : RunOk step ok s es) (hrun : runFrom step s es = some s') : Reach step ok init s' := by
  induction es generalizing s with
  | nil => exact Option.some.inj hrun ▸ h
  | cons e es ih =>
    obtain ⟨t, ht, hrun⟩ := Option.bind_eq_some_iff.mp hrun
    exact ih (.next h hok.1 ht) (hok.2 t ht) hrun

/-- A guard on the events alone is checked on the list of events. -/
theorem RunOk.of_forall {p : ε → Prop} {s : σ} {es : List ε} (h : ∀ e ∈ es, p e) :
    RunOk step (fun _ e => p e) s es := by
  induction es generalizing s with
  | nil => trivial
  | cons e es ih =>
    exact ⟨h e List.mem_cons_self, fun _ _ => ih (fun e' he' => h e' (List.mem_cons_of_mem _ he'))⟩

/-- The step that also notes its event, latest first. -/
def logged (step : σ → ε → Option σ) (p : σ × List ε) (e : ε) : Option (σ × List ε) :=
  (step p.1 e).map (fun s' => (s', e :: p.2))

theorem logged_eq_some {p p' : σ × List ε} {e : ε} :
    logged step p e = some p' ↔ step p.1 e = some p'.1 ∧ p'.2 = e :: p.2 := by
  unfold logged
  constructor
  · intro h
    obtain ⟨s', hs, rfl⟩ := Option.map_eq_some_iff.mp h
    exact ⟨hs, rfl⟩
  · rintro ⟨hs, hl⟩
    rw [hs, Option.map_some, ← hl]

/-- An evaluated run ends in a state that is reached. -/
theorem Reach.of_eval (step : σ → ε → Option σ) (start : Option σ) (es : List ε) (check : σ → Bool)
    (h : (start.bind (fun s => runFrom step s es)).any check = true) :
    ∃ s, Reach step (fun _ _ => True) (fun s => start = some s) s ∧ check s = true := by
  obtain ⟨s, hs, hc⟩ := (Option.any_eq_true _ _).mp h
  obtain ⟨s0, h0, hrun⟩ := Option.bind_eq_some_iff.mp hs
  exact ⟨s, Reach.of_run (.start h0) (RunOk.of_forall (p := fun _ => True) (fun _ _ => trivial)) hrun, hc⟩

/-- The step where its guard holds. -/
def guarded (step : σ → ε → Option σ) (ok : σ → ε → Prop) [∀ s e, Decidable (ok s e)] (s : σ) (e : ε) : Option σ :=
  if ok s e then step s e else none

/-- An evaluated run of guarded steps ends in a state that guarded steps reach. -/
theorem Reach.of_guarded (step : σ → ε → Option σ) (ok : σ → ε → Prop) [∀ s e, Decidable (ok s e)]
    (start : Option σ) (es : List ε) (check : σ → Bool)
    (h : (start.bind (fun s => runFrom (guarded step ok) s es)).any check = true) :
    ∃ s, Reach step ok (fun s => start = some s) s ∧ check s = true := by
  obtain ⟨s, hr, hc⟩ := Reach.of_eval _ _ _ _ h
  refine ⟨s, ?_, hc⟩
  clear hc h
  induction hr with
  | start h => exact .start h
  | next _ _ hs ih =>
    unfold guarded at hs
    split at hs
    · exact .next ih ‹_› hs
    · cases hs

end Run
