import DSLink.Lib.Tails

/-!
# `Lib.Rewrite` — one rule applied to a text at its first occurrence

A text is rewritten by replacing the first occurrence of `needle` by `repl` as long as there is one. This is compared
with the replacement of the occurrences of the text as it was, from left to right: `replaceUpTo i` replaces the first
`i` of them. Where `needle` and `repl` differ at a place, that place orders the texts, and every round goes down.

## Contents
- `FirstAt`, `replaceFirst`, `Rounds`: the first occurrence, one round, and `k` rounds.
- `replaceUpTo`, `upTo_cases`: the occurrences of the text as it was, and where the next one stands.
- `Before`, `Behind`: the orders of texts from the left and from the right.
- `in_order_left`, `in_order_right`, `in_order`: rounds that end in `replaceUpTo` have replaced these occurrences, in
  their order.
-/

namespace DSLink

variable {α : Type} {needle repl t t' u v w a : List α} {i j k : Nat}

/-! ## The first occurrence -/

/-- The first occurrence of `needle` in `t` has `a` before and `w` behind it. -/
structure FirstAt (needle t a w : List α) : Prop where
  eq : t = a ++ needle ++ w
  first : ∀ a' w', t = a' ++ needle ++ w' → a.length ≤ a'.length

theorem append_inj_left {a a' w w' : List α} (h : a ++ needle ++ w = a' ++ needle ++ w') (hl : a.length = a'.length) :
    a = a' ∧ w = w' := by
  rw [List.append_assoc, List.append_assoc] at h
  obtain ⟨ha, hw⟩ := List.append_inj h hl
  exact ⟨ha, List.append_cancel_left hw⟩

theorem FirstAt.unique {a' w' : List α} (h : FirstAt needle t a w) (h' : FirstAt needle t a' w') : a = a' ∧ w = w' :=
  append_inj_left (h.eq.symm.trans h'.eq) (le_antisymm (h.first a' w' h'.eq) (h'.first a w h.eq))

theorem FirstAt.upTo (h : FirstAt needle t a w) : upTo t (needle ++ w) = a := by
  rw [h.eq, List.append_assoc, upTo_left]

theorem FirstAt.infix (h : FirstAt needle t a w) : needle <:+: t := ⟨a, w, h.eq.symm⟩

/-- `k` rounds, each of which replaces the first occurrence. -/
inductive Rounds (needle repl : List α) : Nat → List α → List α → Prop
  | refl (t : List α) : Rounds needle repl 0 t t
  | step {k : Nat} {t u a w : List α} : FirstAt needle t a w → Rounds needle repl k (a ++ repl ++ w) u →
      Rounds needle repl (k + 1) t u

theorem Rounds.snoc (h : Rounds needle repl k t u) (hu : FirstAt needle u a w) :
    Rounds needle repl (k + 1) t (a ++ repl ++ w) := by
  induction h with
  | refl t => exact .step hu (.refl _)
  | step hf _ ih => exact .step hf (ih hu)

/-- The last round replaces the first occurrence in what the rounds before it have left. -/
theorem Rounds.last (hu : Rounds needle repl (k + 1) t u) (hv : Rounds needle repl k t v) :
    ∃ a w, FirstAt needle v a w ∧ u = a ++ repl ++ w := by
  induction hv with
  | refl t =>
    cases hu with
    | step hf hr =>
      cases hr
      exact ⟨_, _, hf, rfl⟩
  | step hf _ ih =>
    cases hu with
    | step hf' hr =>
      obtain ⟨rfl, rfl⟩ := hf.unique hf'
      exact ih hr

section First

variable [DecidableEq α]

theorem find_cases (needle t : List α) : (firstTail needle.isPrefixOf t = none ∧ ¬needle <:+: t) ∨
    ∃ a w, FirstAt needle t a w ∧ firstTail needle.isPrefixOf t = some (needle ++ w) := by
  cases h : firstTail needle.isPrefixOf t with
  | none =>
    refine .inl ⟨rfl, ?_⟩
    rintro ⟨a, w, rfl⟩
    have := firstTail_eq_none.mp h (needle ++ w) ⟨a, (List.append_assoc ..).symm⟩
    rw [List.isPrefixOf_iff_prefix.mpr (List.prefix_append needle w)] at this
    cases this
  | some s =>
    have hs := firstTail_spec h
    obtain ⟨w, rfl⟩ := List.isPrefixOf_iff_prefix.mp hs.holds
    obtain ⟨a, ha⟩ := hs.tail
    refine .inr ⟨a, w, ⟨by rw [List.append_assoc, ha], fun a' w' he => ?_⟩, rfl⟩
    have hle := (hs.first (needle ++ w') ⟨a', by rw [he, List.append_assoc]⟩
      (List.isPrefixOf_iff_prefix.mpr (List.prefix_append needle w'))).length_le
    have hlen := congrArg List.length (ha.trans he)
    simp only [List.length_append] at hle hlen
    omega

/-- The first occurrence replaced. -/
def replaceFirst (needle repl t : List α) : List α :=
  match firstTail needle.isPrefixOf t with
  | some s => upTo t s ++ repl ++ s.drop needle.length
  | none => t

theorem replaceFirst_none (h : ¬needle <:+: t) : replaceFirst needle repl t = t := by
  rcases find_cases needle t with ⟨hn, -⟩ | ⟨a, w, hf, -⟩
  · rw [replaceFirst, hn]
  · exact absurd hf.infix h

theorem FirstAt.find (h : FirstAt needle t a w) : firstTail needle.isPrefixOf t = some (needle ++ w) := by
  rcases find_cases needle t with ⟨-, hn⟩ | ⟨a', w', hf, hs⟩
  · exact absurd h.infix hn
  · rw [hs, (h.unique hf).2]

theorem FirstAt.replaceFirst (h : FirstAt needle t a w) : replaceFirst needle repl t = a ++ repl ++ w := by
  rw [DSLink.replaceFirst, h.find]
  simp only [h.upTo, List.drop_left]

/-! ## The occurrences of the text as it was -/

/-- The first `i` occurrences replaced, which are found from left to right and do not overlap. -/
def replaceUpTo (needle repl : List α) : Nat → List α → List α
  | 0, t => t
  | i + 1, t => match firstTail needle.isPrefixOf t with
    | some s => upTo t s ++ repl ++ replaceUpTo needle repl i (s.drop needle.length)
    | none => t

theorem replaceUpTo_none (h : ¬needle <:+: t) (i : Nat) : replaceUpTo needle repl i t = t := by
  cases i with
  | zero => rfl
  | succ i =>
    rcases find_cases needle t with ⟨hn, -⟩ | ⟨a, w, hf, -⟩
    · rw [replaceUpTo, hn]
    · exact absurd hf.infix h

theorem FirstAt.replaceUpTo (h : FirstAt needle t a w) (i : Nat) :
    replaceUpTo needle repl (i + 1) t = a ++ repl ++ replaceUpTo needle repl i w := by
  rw [DSLink.replaceUpTo, h.find]
  simp only [h.upTo, List.drop_left]

/-- A text has no more occurrences than characters. -/
theorem replaceUpTo_stable (hn : needle ≠ []) (h : t.length ≤ i) :
    replaceUpTo needle repl (i + 1) t = replaceUpTo needle repl i t := by
  induction i generalizing t with
  | zero =>
    refine replaceUpTo_none ?_ 1
    rw [List.length_eq_zero_iff.mp (Nat.le_zero.mp h), List.infix_nil]
    exact hn
  | succ i ih =>
    rcases find_cases needle t with ⟨-, hn⟩ | ⟨a, w, hf, -⟩
    · rw [replaceUpTo_none hn, replaceUpTo_none hn]
    · rw [hf.replaceUpTo, hf.replaceUpTo, ih]
      have hpos := List.length_pos_iff.mpr hn
      rw [hf.eq, List.length_append, List.length_append] at h
      omega

theorem replaceUpTo_all (hn : needle ≠ []) (h : t.length ≤ i) :
    replaceUpTo needle repl i t = replaceUpTo needle repl t.length t := by
  induction i, h using Nat.le_induction with
  | base => rfl
  | succ i h ih => rw [replaceUpTo_stable hn h, ih]

/-- The occurrence number `i`: `g` before it in the text as it was, `u` in the text with those before it replaced. -/
structure Next (needle repl t : List α) (i : Nat) (g u w : List α) : Prop where
  text : t = g ++ needle ++ w
  now : replaceUpTo needle repl i t = u ++ needle ++ w
  next : replaceUpTo needle repl (i + 1) t = u ++ repl ++ w
  kept : ∀ j, i < j → u ++ repl <+: replaceUpTo needle repl j t

theorem upTo_cases (needle repl : List α) (i : Nat) (t : List α) : (∃ g u w, Next needle repl t i g u w) ∨
    ∀ j, i ≤ j → replaceUpTo needle repl j t = replaceUpTo needle repl i t := by
  induction i generalizing t with
  | zero =>
    rcases find_cases needle t with ⟨-, hn⟩ | ⟨a, w, hf, -⟩
    · exact .inr fun j _ => replaceUpTo_none hn j
    · refine .inl ⟨a, a, w, hf.eq, hf.eq, hf.replaceUpTo 0, fun j hj => ?_⟩
      obtain ⟨j, rfl⟩ := Nat.exists_eq_add_one_of_ne_zero (Nat.ne_of_gt hj)
      rw [hf.replaceUpTo j]
      exact List.prefix_append _ _
  | succ i ih =>
    rcases find_cases needle t with ⟨-, hn⟩ | ⟨a, v, hf, -⟩
    · exact .inr fun j _ => by rw [replaceUpTo_none hn, replaceUpTo_none hn]
    · rcases ih v with ⟨g, u, w, hx⟩ | hx
      · refine .inl ⟨a ++ needle ++ g, a ++ repl ++ u, w, ?_, ?_, ?_, fun j hj => ?_⟩
        · rw [hf.eq, hx.text]
          simp only [List.append_assoc]
        · rw [hf.replaceUpTo, hx.now]
          simp only [List.append_assoc]
        · rw [hf.replaceUpTo, hx.next]
          simp only [List.append_assoc]
        · obtain ⟨j, rfl⟩ := Nat.exists_eq_add_one_of_ne_zero (Nat.ne_of_gt (Nat.zero_lt_of_lt hj))
          rw [hf.replaceUpTo, List.append_assoc]
          exact (List.prefix_append_right_inj _).mpr (hx.kept j (Nat.lt_of_succ_lt_succ hj))
      · refine .inr fun j hj => ?_
        obtain ⟨j, rfl⟩ := Nat.exists_eq_add_one_of_ne_zero (Nat.ne_of_gt (Nat.zero_lt_of_lt hj))
        rw [hf.replaceUpTo, hf.replaceUpTo, hx j (Nat.le_of_succ_le_succ hj)]

end First

/-! ## The texts in order -/

variable {x y : α}

/-- At the first place where the texts differ from the left, `u` has `x` and `v` has `y`. -/
def Before (x y : α) (u v : List α) : Prop := ∃ c, c ++ [x] <+: u ∧ c ++ [y] <+: v

/-- At the first place where the texts differ from the right, `u` has `x` and `v` has `y`. -/
def Behind (x y : α) (u v : List α) : Prop := ∃ c, x :: c <:+ u ∧ y :: c <:+ v

theorem prefix_eq (h : u <+: t) (h' : v <+: t) (hl : u.length = v.length) : u = v :=
  (List.prefix_of_prefix_length_le h h' hl.le).eq_of_length hl

theorem suffix_eq (h : u <:+ t) (h' : v <:+ t) (hl : u.length = v.length) : u = v :=
  (List.suffix_of_suffix_length_le h h' hl.le).eq_of_length hl

theorem Before.irrefl (hxy : x ≠ y) (t : List α) : ¬Before x y t t := by
  rintro ⟨c, hx, hy⟩
  have he := prefix_eq hx hy (by simp)
  exact hxy (List.cons.inj (List.append_cancel_left he)).1

theorem prefix_before {c c' : List α} (h : c ++ [x] <+: t) (h' : c' <+: t) (hl : c.length < c'.length) :
    c ++ [x] <+: c' :=
  List.prefix_of_prefix_length_le h h' (by rw [List.length_append]; exact hl)

theorem Before.trans (hxy : x ≠ y) (h : Before x y t u) (h' : Before x y u v) : Before x y t v := by
  obtain ⟨c, ht, hu⟩ := h
  obtain ⟨c', hu', hv⟩ := h'
  rcases Nat.lt_trichotomy c.length c'.length with hl | hl | hl
  · refine ⟨c, ht, ?_⟩
    exact (prefix_before hu ((List.prefix_append c' [x]).trans hu') hl).trans ((List.prefix_append c' [y]).trans hv)
  · have he := prefix_eq hu hu' (by simp [hl])
    exact absurd (List.cons.inj (List.append_inj he hl).2).1 (Ne.symm hxy)
  · refine ⟨c', ?_, hv⟩
    exact (prefix_before hu' ((List.prefix_append c [y]).trans hu) hl).trans ((List.prefix_append c [x]).trans ht)

theorem behind_iff : Behind x y u v ↔ Before x y u.reverse v.reverse := by
  constructor
  · rintro ⟨c, hu, hv⟩
    refine ⟨c.reverse, ?_, ?_⟩ <;> rw [← List.reverse_cons, List.reverse_prefix]
    exacts [hu, hv]
  · rintro ⟨c, hu, hv⟩
    refine ⟨c.reverse, ?_, ?_⟩ <;> rw [← List.reverse_prefix, List.reverse_cons, List.reverse_reverse]
    exacts [hu, hv]

theorem Behind.irrefl (hxy : x ≠ y) (t : List α) : ¬Behind x y t t :=
  fun h => Before.irrefl hxy t.reverse (behind_iff.mp h)

theorem Behind.trans (hxy : x ≠ y) (h : Behind x y t u) (h' : Behind x y u v) : Behind x y t v :=
  behind_iff.mpr (Before.trans hxy (behind_iff.mp h) (behind_iff.mp h'))

theorem exists_before (h : ¬u <+: v) (h' : ¬v <+: u) : ∃ x y, x ≠ y ∧ Before x y u v := by
  induction u generalizing v with
  | nil => exact absurd List.nil_prefix h
  | cons x u ih =>
    cases v with
    | nil => exact absurd List.nil_prefix h'
    | cons y v =>
      by_cases hxy : x = y
      · subst hxy
        rw [List.prefix_cons_inj] at h h'
        obtain ⟨x', y', hne, c, hu, hv⟩ := ih h h'
        exact ⟨x', y', hne, x :: c, (List.prefix_cons_inj x).mpr hu, (List.prefix_cons_inj x).mpr hv⟩
      · exact ⟨x, y, hxy, [], ⟨u, rfl⟩, ⟨v, rfl⟩⟩

theorem exists_behind (h : ¬u <:+ v) (h' : ¬v <:+ u) : ∃ x y, x ≠ y ∧ Behind x y u v := by
  rw [← List.reverse_prefix] at h h'
  obtain ⟨x, y, hne, hb⟩ := exists_before h h'
  exact ⟨x, y, hne, behind_iff.mpr hb⟩

theorem Before.around (h : Before x y repl needle) (a w : List α) :
    Before x y (a ++ repl ++ w) (a ++ needle ++ w) := by
  obtain ⟨c, hr, hn⟩ := h
  refine ⟨a ++ c, ?_, ?_⟩ <;> rw [List.append_assoc, List.append_assoc, List.prefix_append_right_inj]
  exacts [hr.trans (List.prefix_append _ _), hn.trans (List.prefix_append _ _)]

/-- The difference of `needle` and `repl` with the text behind it. -/
theorem cons_suffix {c : List α} (h : x :: c <:+ u) (a w : List α) : x :: (c ++ w) <:+ a ++ u ++ w := by
  obtain ⟨b, rfl⟩ := h
  exact ⟨a ++ b, by simp⟩

theorem Behind.around (h : Behind x y repl needle) (a w : List α) :
    Behind x y (a ++ repl ++ w) (a ++ needle ++ w) := by
  obtain ⟨c, hr, hn⟩ := h
  exact ⟨c ++ w, cons_suffix hr a w, cons_suffix hn a w⟩

/-- Rounds go down, where every single one does. -/
theorem Rounds.down {R : List α → List α → Prop} (htrans : ∀ t u v, R t u → R u v → R t v)
    (hstep : ∀ a w, R (a ++ repl ++ w) (a ++ needle ++ w)) (h : Rounds needle repl k t u) : u = t ∨ R u t := by
  induction h with
  | refl t => exact .inl rfl
  | step hf _ ih =>
    rw [hf.eq]
    rcases ih with rfl | ih
    · exact .inr (hstep _ _)
    · exact .inr (htrans _ _ _ ih (hstep _ _))

/-! ## Rounds from the right -/

/-- After a round the next occurrence is not before the replaced one, where `repl` begins `needle`. -/
theorem FirstAt.not_before {a' w' : List α} (h : FirstAt needle t a w) (hpre : repl <+: needle)
    (h' : FirstAt needle (a ++ repl ++ w) a' w') : w'.length ≤ w.length := by
  by_contra hlt
  have hlen := congrArg List.length h'.eq
  have hle := hpre.length_le
  simp only [List.length_append] at hlen
  have hpref : a' ++ needle <+: a ++ repl := by
    refine List.prefix_of_prefix_length_le ⟨w', h'.eq.symm⟩ (List.prefix_append _ _) ?_
    simp only [List.length_append]
    omega
  obtain ⟨s, hs⟩ := hpref.trans ((List.prefix_append_right_inj a).mpr hpre)
  have := h.first a' (s ++ w) (by rw [h.eq, ← hs, List.append_assoc (a' ++ needle)])
  omega

theorem suffix_behind {c c' : List α} (h : y :: c <:+ t) (h' : c' <:+ t) (hl : c.length < c'.length) : y :: c <:+ c' :=
  List.suffix_of_suffix_length_le h h' hl

/-- Where the texts differ from the right, a round behind `w` goes below each text that ends as this one does. -/
theorem Rounds.overtaken (hxy : x ≠ y) {c w' : List α} (hx : x :: c <:+ repl) (hy : y :: c <:+ needle)
    (hf : FirstAt needle t a w') (hr : Rounds needle repl k (a ++ repl ++ w') v) (ht : c ++ w <:+ t)
    (hv : c ++ w <:+ v) : w.length ≤ w'.length := by
  by_contra hlt
  have hyt : y :: (c ++ w') <:+ t := hf.eq ▸ cons_suffix hy a w'
  have hyv : y :: (c ++ w') <:+ v := by
    refine (suffix_behind hyt ht ?_).trans hv
    simp only [List.length_append]
    omega
  have hlow : Behind x y (a ++ repl ++ w') v := ⟨c ++ w', cons_suffix hx a w', hyv⟩
  rcases hr.down (R := Behind x y) (fun _ _ _ => Behind.trans hxy) (Behind.around ⟨c, hx, hy⟩) with rfl | hd
  · exact Behind.irrefl hxy _ hlow
  · exact Behind.irrefl hxy _ (hlow.trans hxy hd)

/-- Rounds that leave `repl` before `w`, where `needle` stood, have replaced this occurrence in the last round. -/
theorem Rounds.last_behind (hxy : x ≠ y) {c : List α} (hx : x :: c <:+ repl) (hy : y :: c <:+ needle)
    (hpre : repl <+: needle) (hr : Rounds needle repl k t v) (ht : y :: (c ++ w) <:+ t) (hv : v = u ++ repl ++ w) :
    ∃ j, k = j + 1 ∧ Rounds needle repl j t (u ++ needle ++ w) := by
  have hvx : x :: (c ++ w) <:+ v := hv ▸ cons_suffix hx u w
  have hvw : c ++ w <:+ v := (List.suffix_cons x _).trans hvx
  -- on the rounds: the text ends with the needle's `y`, `c` and `w` until the occurrence before `w` is replaced
  induction hr with
  | refl t => exact absurd ⟨c ++ w, hvx, ht⟩ (Behind.irrefl hxy t)
  | @step k t v a w' hf hr ih =>
    have htw : c ++ w <:+ t := (List.suffix_cons y _).trans ht
    have hle := Rounds.overtaken hxy hx hy hf hr htw hvw
    rcases Nat.lt_or_eq_of_le hle with hlt | heq
    · have hnext : y :: (c ++ w) <:+ a ++ repl ++ w' := by
        have hxw : x :: (c ++ w') <:+ a ++ repl ++ w' := cons_suffix hx a w'
        have hyw : y :: (c ++ w') <:+ t := hf.eq ▸ cons_suffix hy a w'
        refine (suffix_behind ht ((List.suffix_cons y _).trans hyw) ?_).trans ((List.suffix_cons x _).trans hxw)
        simp only [List.length_append]
        omega
      obtain ⟨j, rfl, hj⟩ := ih hnext hv hvx hvw
      exact ⟨j + 1, rfl, .step hf hj⟩
    · -- this is the occurrence; a further round would be behind it and go below `v`
      have hw : w <:+ t := (List.suffix_append c w).trans htw
      have hw' : w' <:+ t := ⟨a ++ needle, hf.eq.symm⟩
      obtain rfl := suffix_eq hw hw' heq
      cases hr with
      | refl =>
        obtain ⟨rfl, -⟩ := append_inj_left hv (by
          have := congrArg List.length hv
          simp only [List.length_append] at this
          omega)
        exact ⟨0, rfl, hf.eq ▸ .refl _⟩
      | @step k' _ _ a₂ w₂ hf₂ hr₂ =>
        have hsuf : c ++ w <:+ a ++ repl ++ w := (List.suffix_cons x _).trans (cons_suffix hx a w)
        have hge := Rounds.overtaken hxy hx hy hf₂ hr₂ hsuf hvw
        have hw₂ : w₂ <:+ a ++ repl ++ w := ⟨a₂ ++ needle, hf₂.eq.symm⟩
        have hy₂ : y :: (c ++ w₂) <:+ a ++ repl ++ w := hf₂.eq ▸ cons_suffix hy a₂ w₂
        obtain rfl := suffix_eq hw₂ (List.suffix_append _ w) (le_antisymm (hf.not_before hpre hf₂) hge)
        exact absurd ⟨c ++ w₂, cons_suffix hx a w₂, hy₂⟩ (Behind.irrefl hxy _)

/-! ## Rounds that end in the replaced text -/

section InOrder

variable [DecidableEq α] {g : List α}

/-- The occurrence number `i`, unless all are replaced. -/
theorem next_or_done (hne : needle ≠ []) (i : Nat) : (∃ g u w, Next needle repl t i g u w) ∨
    replaceUpTo needle repl i t = replaceUpTo needle repl t.length t ∧
      replaceUpTo needle repl (i + 1) t = replaceUpTo needle repl i t := by
  rcases upTo_cases needle repl i t with h | h
  · exact .inl h
  · refine .inr ⟨?_, h (i + 1) (Nat.le_succ i)⟩
    rw [← h (max i t.length) (Nat.le_max_left ..), replaceUpTo_all hne (Nat.le_max_right ..)]

theorem Next.infix (h : Next needle repl t i g u w) : needle <:+: replaceUpTo needle repl i t := ⟨u, w, h.now.symm⟩

theorem Next.lt (h : Next needle repl t i g u w) (hne : needle ≠ [])
    (hfree : ¬needle <:+: replaceUpTo needle repl t.length t) : i < t.length := by
  by_contra hi
  rw [← replaceUpTo_all hne (Nat.le_of_not_lt hi)] at hfree
  exact hfree h.infix

/-- A round at an earlier place than that of the next occurrence goes below the replaced text. -/
theorem Next.before (h : Next needle repl t i g u w) (hb : Before x y repl needle) (hi : i < j) {w' : List α}
    (heq : replaceUpTo needle repl i t = a ++ needle ++ w') (hl : a.length < u.length) :
    Before x y (a ++ repl ++ w') (replaceUpTo needle repl j t) := by
  obtain ⟨c, hr, hn⟩ := hb
  refine ⟨a ++ c, ?_, ?_⟩
  · rw [List.append_assoc, List.append_assoc, List.prefix_append_right_inj]
    exact hr.trans (List.prefix_append _ _)
  have hc : c <+: repl := (List.prefix_append c [x]).trans hr
  have hleft : a ++ c ++ [y] <+: replaceUpTo needle repl i t := by
    rw [heq, List.append_assoc, List.append_assoc, List.prefix_append_right_inj]
    exact hn.trans (List.prefix_append _ _)
  have hright : u ++ c <+: replaceUpTo needle repl i t := by
    rw [h.now, List.append_assoc, List.prefix_append_right_inj]
    exact ((List.prefix_append c [y]).trans hn).trans (List.prefix_append _ _)
  -- both begin the same text, and the earlier place makes the first the shorter one
  have hle : (a ++ c ++ [y]).length ≤ (u ++ c).length := by
    simp only [List.length_append, List.length_singleton]
    omega
  exact (List.prefix_of_prefix_length_le hleft hright hle).trans
    (((List.prefix_append_right_inj u).mpr hc).trans (h.kept j hi))

/-- Where the texts differ from the left, a round that goes on to the replaced text replaces the next occurrence. -/
theorem Next.left_step (h : Next needle repl t i g u w) (hne : needle ≠ [])
    (hfree : ¬needle <:+: replaceUpTo needle repl t.length t) (hxy : x ≠ y) (hb : Before x y repl needle)
    (hr : Rounds needle repl k (replaceUpTo needle repl i t) (replaceUpTo needle repl t.length t)) :
    replaceFirst needle repl (replaceUpTo needle repl i t) = replaceUpTo needle repl (i + 1) t ∧
      ∃ k', Rounds needle repl k' (replaceUpTo needle repl (i + 1) t) (replaceUpTo needle repl t.length t) := by
  generalize hall : replaceUpTo needle repl t.length t = s at hr
  generalize hnow : replaceUpTo needle repl i t = v at hr
  cases hr with
  | refl =>
    -- no round is left only where the needle is gone
    rw [hall, ← hnow] at hfree
    exact absurd h.infix hfree
  | @step k _ _ a w' hf hr =>
    rcases Nat.lt_or_eq_of_le (hf.first u w (hnow ▸ h.now)) with hl | hl
    · -- below the replaced text, and the rounds only go down from there
      have hlow := h.before hb (h.lt hne hfree) (hnow.trans hf.eq) hl
      rw [hall] at hlow
      rcases hr.down (R := Before x y) (fun _ _ _ => Before.trans hxy) hb.around with rfl | hd
      · exact absurd hlow (Before.irrefl hxy _)
      · exact absurd (hlow.trans hxy hd) (Before.irrefl hxy _)
    · obtain ⟨rfl, rfl⟩ := append_inj_left (hf.eq.symm.trans (hnow.symm.trans h.now)) hl
      rw [hf.replaceFirst, h.next]
      exact ⟨rfl, k, hr⟩

theorem in_order_left (hne : needle ≠ []) (hfree : ¬needle <:+: replaceUpTo needle repl t.length t) (hxy : x ≠ y)
    (hb : Before x y repl needle) (hr : Rounds needle repl k t (replaceUpTo needle repl t.length t)) (i : Nat) :
    replaceFirst needle repl (replaceUpTo needle repl i t) = replaceUpTo needle repl (i + 1) t ∧
      ∃ k', Rounds needle repl k' (replaceUpTo needle repl (i + 1) t) (replaceUpTo needle repl t.length t) := by
  have hnext : ∀ i k, Rounds needle repl k (replaceUpTo needle repl i t) (replaceUpTo needle repl t.length t) →
      replaceFirst needle repl (replaceUpTo needle repl i t) = replaceUpTo needle repl (i + 1) t ∧
        ∃ k', Rounds needle repl k' (replaceUpTo needle repl (i + 1) t) (replaceUpTo needle repl t.length t) := by
    intro i k hk
    rcases next_or_done hne i with ⟨g, u, w, h⟩ | ⟨hall, hsame⟩
    · exact h.left_step hne hfree hxy hb hk
    · rw [hsame]
      exact ⟨replaceFirst_none (hall ▸ hfree), k, hk⟩
  induction i with
  | zero => exact hnext 0 k hr
  | succ i ih =>
    obtain ⟨-, k', hk⟩ := ih
    exact hnext (i + 1) k' hk

/-- Where the texts differ from the right, the rounds up to the replaced text are those of its occurrences. -/
theorem in_order_right (hne : needle ≠ []) (hfree : ¬needle <:+: replaceUpTo needle repl t.length t) (hxy : x ≠ y)
    (hb : Behind x y repl needle) (hpre : repl <+: needle)
    (hr : Rounds needle repl k t (replaceUpTo needle repl t.length t)) (i : Nat) :
    replaceFirst needle repl (replaceUpTo needle repl i t) = replaceUpTo needle repl (i + 1) t := by
  obtain ⟨c, hx, hy⟩ := hb
  have hback : ∀ {i g u w k}, Next needle repl t i g u w → Rounds needle repl k t (replaceUpTo needle repl (i + 1) t) →
      ∃ j, k = j + 1 ∧ Rounds needle repl j t (replaceUpTo needle repl i t) := by
    intro i g u w k h hk
    rw [h.now]
    refine hk.last_behind hxy hx hy hpre ?_ h.next
    rw [h.text]
    exact cons_suffix hy g w
  -- from the last occurrence back to the first
  have hall : ∀ d i, i + d = t.length → ∃ k, Rounds needle repl k t (replaceUpTo needle repl i t) := by
    intro d
    induction d with
    | zero => exact fun i hi => ⟨k, (show i = t.length from hi) ▸ hr⟩
    | succ d ih =>
      intro i hi
      obtain ⟨k, hk⟩ := ih (i + 1) (by omega)
      rcases next_or_done hne i with ⟨g, u, w, h⟩ | ⟨-, hsame⟩
      · obtain ⟨j, -, hj⟩ := hback h hk
        exact ⟨j, hj⟩
      · exact ⟨k, hsame ▸ hk⟩
  rcases next_or_done hne i with ⟨g, u, w, h⟩ | ⟨hdone, hsame⟩
  · have hi := h.lt hne hfree
    obtain ⟨k, hk⟩ := hall (t.length - (i + 1)) (i + 1) (by omega)
    obtain ⟨j, rfl, hj⟩ := hback h hk
    obtain ⟨a, w', hf, hu⟩ := hk.last hj
    rw [hf.replaceFirst, hu]
  · rw [hsame]
    exact replaceFirst_none (hdone ▸ hfree)

/-- Rounds that end in the replaced text have replaced its occurrences in their order, or `repl` both begins and ends
`needle`. -/
theorem in_order (hne : needle ≠ []) (hfree : ¬needle <:+: replaceUpTo needle repl t.length t)
    (hborder : ¬(repl <+: needle ∧ repl <:+ needle))
    (hr : Rounds needle repl k t (replaceUpTo needle repl t.length t)) (i : Nat) :
    replaceFirst needle repl (replaceUpTo needle repl i t) = replaceUpTo needle repl (i + 1) t := by
  -- a needle in `repl` stays for ever, so there is no occurrence at all
  by_cases hin : needle <:+: repl
  · rcases next_or_done hne i with ⟨g, u, w, h⟩ | ⟨hdone, hsame⟩
    · have hkept : repl <:+: replaceUpTo needle repl t.length t :=
        (List.suffix_append u repl).isInfix.trans (h.kept t.length (h.lt hne hfree)).isInfix
      exact absurd (hin.trans hkept) hfree
    · rw [hsame]
      exact replaceFirst_none (hdone ▸ hfree)
  · by_cases hpre : repl <+: needle
    · obtain ⟨x, y, hxy, hb⟩ := exists_behind (fun hs => hborder ⟨hpre, hs⟩) (fun hs => hin hs.isInfix)
      exact in_order_right hne hfree hxy hb hpre hr i
    · obtain ⟨x, y, hxy, hb⟩ := exists_before hpre (fun hp => hin hp.isInfix)
      exact (in_order_left hne hfree hxy hb hr i).1

/-- Where each round gives the next text, rounds lead to all of them. -/
theorem rounds_in_order
    (h : ∀ i, replaceFirst needle repl (replaceUpTo needle repl i t) = replaceUpTo needle repl (i + 1) t) (i : Nat) :
    ∃ k, Rounds needle repl k t (replaceUpTo needle repl i t) := by
  induction i with
  | zero => exact ⟨0, .refl t⟩
  | succ i ih =>
    obtain ⟨k, hk⟩ := ih
    rcases find_cases needle (replaceUpTo needle repl i t) with ⟨-, hn⟩ | ⟨a, w, hf, -⟩
    · rw [← h i, replaceFirst_none hn]
      exact ⟨k, hk⟩
    · rw [← h i, hf.replaceFirst]
      exact ⟨k + 1, hk.snoc hf⟩

end InOrder

end DSLink
