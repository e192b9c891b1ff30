import Mathlib.Data.List.Infix
import DSLink.Broker.Query

/-!
# `Broker.QueryMatch` — the language of a pattern

What `match_query` is for: a path matches a pattern in which `?` stands for the rest of one name and `*` for any
text, and a path that does not match may still lie above one that does. `Matches` is that language. The loop of
`match_query` follows it, with two exceptions: a path that is used up in front of more wildcards is no match, and a
`*` is given up where the character behind it does not come.

## Contents
- `Matches`, `Literal`, `Literals`.
- `Full`, `Open`: the outcome of the loop, by recursion on the pattern. `matchLoop_spec`.
- `FullSeen`, `PartSeen`: the same in terms of `Matches`.
- `match_query_exact`.
-/

namespace DSLink.Query

/-- A character that stands for itself. -/
def Literal (a : UInt8) : Prop := a ≠ 63 ∧ a ≠ 42

/-- A text without `?` and `*`. -/
def Literals (p : CString) : Prop := ∀ a ∈ p, Literal a

/-- What is left of a path behind the name it begins with. -/
def dropName (p : CString) : CString := p.dropWhile (fun c => c ≠ slash)

/-- The language of a pattern. -/
inductive Matches : CString → CString → Prop
  | nil : Matches [] []
  | char {a : UInt8} {q p : CString} (ha : Literal a) (h : Matches q p) : Matches (a :: q) (a :: p)
  | name {q p : CString} (h : Matches q (dropName p)) : Matches (63 :: q) p
  | star {q p s : CString} (hs : s <:+ p) (h : Matches q s) : Matches (42 :: q) p

variable {a : UInt8} {h : Bool} {p q b c s u w : CString}

instance : DecidablePred Literal := fun a => inferInstanceAs (Decidable (a ≠ 63 ∧ a ≠ 42))

instance : DecidablePred Literals := fun p => inferInstanceAs (Decidable (∀ a ∈ p, Literal a))

/-! ## The language, by the first character of the pattern -/

theorem Literals.suffix (hp : Literals p) (hs : s <:+ p) : Literals s := fun a ha => hp a (hs.subset ha)

theorem Literals.cons (hp : Literals (a :: p)) : Literal a ∧ Literals p :=
  ⟨hp a List.mem_cons_self, hp.suffix (List.suffix_cons a p)⟩

theorem dropName_suffix (p : CString) : dropName p <:+ p := List.dropWhile_suffix _

theorem dropName_slash (p : CString) : dropName (slash :: p) = slash :: p := by simp [dropName]

/-- Behind a name there is nothing or a slash. -/
theorem dropName_cases (p : CString) : dropName p = [] ∨ ∃ r, dropName p = slash :: r := by
  induction p with
  | nil => exact Or.inl rfl
  | cons a p ih =>
    by_cases ha : a = slash
    · exact Or.inr ⟨p, by rw [ha, dropName_slash]⟩
    · rwa [dropName, List.dropWhile_cons_of_pos (by simpa using ha), ← dropName]

theorem dropName_idem (p : CString) : dropName (dropName p) = dropName p := by
  rcases dropName_cases p with h | ⟨r, h⟩
  · rw [h]
    rfl
  · rw [h, dropName_slash]

theorem matches_nil : Matches [] p ↔ p = [] := by
  constructor
  · rintro ⟨⟩
    rfl
  · rintro rfl
    exact .nil

theorem matches_name : Matches (63 :: q) p ↔ Matches q (dropName p) := by
  constructor
  · intro h
    cases h with
    | char ha _ => exact absurd rfl ha.1
    | name h => exact h
  · exact .name

theorem matches_star : Matches (42 :: q) p ↔ ∃ s, s <:+ p ∧ Matches q s := by
  constructor
  · intro h
    cases h with
    | char ha _ => exact absurd rfl ha.2
    | star hs h => exact ⟨_, hs, h⟩
  · rintro ⟨s, hs, h⟩
    exact .star hs h

theorem matches_char (ha : Literal a) : Matches (a :: q) p ↔ ∃ r, p = a :: r ∧ Matches q r := by
  constructor
  · intro h
    cases h with
    | char _ h => exact ⟨_, rfl, h⟩
    | name _ => exact absurd rfl ha.1
    | star _ _ => exact absurd rfl ha.2
  · rintro ⟨r, rfl, h⟩
    exact .char ha h

/-- `Matches`, decided character by character of the pattern. -/
def decideMatches : (q p : CString) → Decidable (Matches q p)
  | [], _ => decidable_of_iff _ matches_nil.symm
  | a :: q, p =>
    haveI := decideMatches q
    if hn : a = 63 then decidable_of_iff (Matches q (dropName p)) (hn ▸ matches_name.symm)
    else if hs : a = 42 then
      decidable_of_iff (∃ s ∈ p.tails, Matches q s) (by simp only [hs, matches_star, List.mem_tails])
    else
      match p with
      | [] => isFalse (fun h => by obtain ⟨r, hr, -⟩ := (matches_char ⟨hn, hs⟩).mp h; cases hr)
      | b :: r => decidable_of_iff (b = a ∧ Matches q r) (by simp [matches_char (a := a) ⟨hn, hs⟩])

instance (q p : CString) : Decidable (Matches q p) := decideMatches q p

/-! ## The outcome of the loop -/

/-- The pattern is read to its end. `head` says that the loop is at its head, where a path that is used up ends it. -/
def Full : Bool → CString → CString → Prop
  | _, [], p => p = []
  | head, a :: q, p =>
    if a = 63 then ¬(head = true ∧ p = []) ∧ Full true q (dropName p)
    else if a = 42 then
      ¬(head = true ∧ p = []) ∧ (q = [] ∨ ∃ s, s <:+ p ∧ s ≠ [] ∧ s.head? = q.head? ∧ Full true q s)
    else ∃ r, p = a :: r ∧ Full false q r

/-- The loop does not give the path up. -/
def Open : Bool → CString → CString → Prop
  | _, [], p => p = []
  | head, a :: q, p =>
    if a = 63 then (head = true ∧ p = []) ∨ Open true q (dropName p)
    else if a = 42 then
      (head = true ∧ p = []) ∨ q = [] ∨ ∃ s, s <:+ p ∧ s ≠ [] ∧ s.head? = q.head? ∧ Open true q s
    else p = [] ∨ ∃ r, p = a :: r ∧ Open false q r

theorem full_name : Full h (63 :: q) p ↔ ¬(h = true ∧ p = []) ∧ Full true q (dropName p) := by simp [Full]

theorem full_star : Full h (42 :: q) p ↔ ¬(h = true ∧ p = []) ∧
    (q = [] ∨ ∃ s, s <:+ p ∧ s ≠ [] ∧ s.head? = q.head? ∧ Full true q s) := by simp [Full]

theorem full_char (ha : Literal a) : Full h (a :: q) p ↔ ∃ r, p = a :: r ∧ Full false q r := by
  rw [Full, if_neg ha.1, if_neg ha.2]

theorem open_name : Open h (63 :: q) p ↔ (h = true ∧ p = []) ∨ Open true q (dropName p) := by simp [Open]

theorem open_star : Open h (42 :: q) p ↔ (h = true ∧ p = []) ∨ q = [] ∨
    ∃ s, s <:+ p ∧ s ≠ [] ∧ s.head? = q.head? ∧ Open true q s := by simp [Open]

theorem open_char (ha : Literal a) : Open h (a :: q) p ↔ p = [] ∨ ∃ r, p = a :: r ∧ Open false q r := by
  rw [Open, if_neg ha.1, if_neg ha.2]

/-- A character of a pattern is one of three kinds. -/
theorem kind_cases (a : UInt8) : a = 63 ∨ a = 42 ∨ Literal a := by
  by_cases h : a = 63
  · exact Or.inl h
  · by_cases h' : a = 42
    · exact Or.inr (Or.inl h')
    · exact Or.inr (Or.inr ⟨h, h'⟩)

/-- At the head of the loop a path that is used up ends it without a match. -/
theorem full_head_nil : Full true q [] ↔ q = [] := by
  cases q with
  | nil => simp [Full]
  | cons a q =>
    rcases kind_cases a with rfl | rfl | ha
    · simp [full_name]
    · simp [full_star]
    · simp [full_char ha]

theorem open_head_nil (q : CString) : Open true q [] := by
  cases q with
  | nil => rfl
  | cons a q =>
    rcases kind_cases a with rfl | rfl | ha
    · simp [open_name]
    · simp [open_star]
    · simp [open_char ha]

/-- As long as the path is not used up, the head of the loop does nothing. -/
theorem head_irrelevant (hp : p ≠ []) (h h' : Bool) :
    (Full h q p ↔ Full h' q p) ∧ (Open h q p ↔ Open h' q p) := by
  cases q with
  | nil => simp [Full, Open]
  | cons a q =>
    rcases kind_cases a with rfl | rfl | ha
    · simp [full_name, open_name, hp]
    · simp [full_star, open_star, hp]
    · simp [full_char ha, open_char ha]

/-- The inner loop: what it takes off the two is read character by character. -/
theorem strip_append (hw : Literals w) (hne : w ≠ [] ∨ p ≠ []) :
    (Full true (w ++ q) (w ++ p) ↔ Full false q p) ∧ (Open true (w ++ q) (w ++ p) ↔ Open false q p) := by
  have hfalse : ∀ w, Literals w →
      (Full false (w ++ q) (w ++ p) ↔ Full false q p) ∧ (Open false (w ++ q) (w ++ p) ↔ Open false q p) := by
    intro w
    induction w with
    | nil => simp
    | cons a w ih =>
      intro hw
      simpa [full_char hw.cons.1, open_char hw.cons.1] using ih hw.cons.2
  have hpath : w ++ p ≠ [] := by
    rcases hne with h | h <;> simp [h]
  have hhead := head_irrelevant (q := w ++ q) hpath true false
  exact ⟨hhead.1.trans (hfalse w hw).1, hhead.2.trans (hfalse w hw).2⟩

/-! ## `match_query` -/

/-- What the inner loop leaves behind. -/
theorem stripCommon_spec (hp : Literals p) (q : CString) :
    ∃ w p' q', stripCommon p q = (p', q') ∧ p = w ++ p' ∧ q = w ++ q' ∧ Literals w ∧
      (p' ≠ [] → q' ≠ [] → p'.head? ≠ q'.head?) := by
  induction p generalizing q with
  | nil => exact ⟨[], [], q, by simp [stripCommon], rfl, rfl, by simp [Literals], by simp⟩
  | cons a p ih =>
    cases q with
    | nil => exact ⟨[], a :: p, [], by simp [stripCommon], rfl, rfl, by simp [Literals], by simp⟩
    | cons b q =>
      by_cases hab : a = b
      · subst hab
        obtain ⟨w, p', q', hs, rfl, rfl, hw, hne⟩ := ih hp.cons.2 q
        refine ⟨a :: w, p', q', by rw [stripCommon, if_pos rfl, hs], rfl, rfl, ?_, hne⟩
        intro c hc
        rcases List.mem_cons.mp hc with rfl | hc
        · exact hp.cons.1
        · exact hw c hc
      · exact ⟨[], a :: p, b :: q, by rw [stripCommon, if_neg hab], rfl, rfl, by simp [Literals],
          fun _ _ => by simpa using hab⟩

/-- The loop behind a star: a match if some round matches, and not given up if some round is not. -/
theorem starLoop_spec (f : CString → MatchResult) (c : Option UInt8) (p : CString) (best : MatchResult)
    (hbest : best ≠ .fullMatch) :
    (starLoop f c p best = .fullMatch ↔ ∃ s, s <:+ p ∧ s ≠ [] ∧ s.head? = c ∧ f s = .fullMatch) ∧
    (starLoop f c p best ≠ .notMatch ↔
      best ≠ .notMatch ∨ ∃ s, s <:+ p ∧ s ≠ [] ∧ s.head? = c ∧ f s ≠ .notMatch) := by
  induction p generalizing best with
  | nil =>
    have hnone : ∀ Q : CString → Prop, ¬∃ s, s <:+ ([] : CString) ∧ s ≠ [] ∧ Q s := by
      rintro Q ⟨s, hs, hne, -⟩
      exact hne (List.suffix_nil.mp hs)
    refine ⟨iff_of_false hbest (hnone _), ?_⟩
    rw [starLoop, iff_self_or]
    exact fun h => absurd h (hnone _)
  | cons a p ih =>
    have hcons : ∀ Q : CString → Prop, (∃ s, s <:+ a :: p ∧ s ≠ [] ∧ s.head? = c ∧ Q s) ↔
        (some a = c ∧ Q (a :: p)) ∨ ∃ s, s <:+ p ∧ s ≠ [] ∧ s.head? = c ∧ Q s := by
      intro Q
      constructor
      · rintro ⟨s, hs, hne, hc, hq⟩
        rcases List.suffix_cons_iff.mp hs with rfl | hs
        · exact Or.inl ⟨hc, hq⟩
        · exact Or.inr ⟨s, hs, hne, hc, hq⟩
      · rintro (⟨hc, hq⟩ | ⟨s, hs, hne, hc, hq⟩)
        · exact ⟨a :: p, List.suffix_rfl, by simp, hc, hq⟩
        · exact ⟨s, hs.trans (List.suffix_cons a p), hne, hc, hq⟩
    rw [hcons, hcons, starLoop]
    by_cases hac : some a = c
    · rw [if_pos hac]
      by_cases hfull : f (a :: p) = .fullMatch
      · simp [hfull, hac]
      · rw [if_neg hfull]
        have hstep := ih (if f (a :: p) = .partialMatch then .partialMatch else best) (by split <;> simp [hbest])
        rw [hstep.1, hstep.2]
        cases hf : f (a :: p) with
        | notMatch => simp [hac]
        | partialMatch => simp [hac]
        | fullMatch => exact absurd hf hfull
    · rw [if_neg hac]
      simpa [hac] using ih best hbest

/-- The loop, read off the pattern. -/
theorem matchLoop_spec (fuel : Nat) (p q : CString) (hlen : q.length ≤ fuel) (hp : Literals p) :
    (matchLoop fuel p q = .fullMatch ↔ Full true q p) ∧ (matchLoop fuel p q ≠ .notMatch ↔ Open true q p) := by
  induction fuel generalizing p q with
  | zero =>
    obtain rfl : q = [] := List.length_eq_zero_iff.mp (Nat.le_zero.mp hlen)
    by_cases h : p = [] <;> simp [matchLoop, matchEnd, Full, Open, h]
  | succ fuel ih =>
    rw [matchLoop]
    by_cases hend : p = [] ∨ q = []
    · rw [if_pos hend]
      rcases hend with rfl | rfl
      · rw [full_head_nil]
        refine ⟨?_, iff_of_true ?_ (open_head_nil q)⟩
        all_goals by_cases h : q = [] <;> simp [matchEnd, h]
      · by_cases h : p = [] <;> simp [matchEnd, Full, Open, h]
    · rw [if_neg hend]
      obtain ⟨w, p', q', hs, rfl, rfl, hw, hne⟩ := stripCommon_spec hp q
      rw [not_or] at hend
      have hp' : Literals p' := hp.suffix (List.suffix_append w p')
      have hlen' : q'.length ≤ fuel + 1 := by simp at hlen; omega
      have hstrip := strip_append (q := q') hw (by simpa [or_iff_not_imp_left] using hend.1)
      rw [hstrip.1, hstrip.2, hs]
      cases q' with
      | nil => by_cases h : p' = [] <;> simp [matchEnd, Full, Open, h]
      | cons a q =>
        have hq : q.length ≤ fuel := by simpa using hlen'
        rcases kind_cases a with rfl | rfl | ha
        · have hround := ih (dropName p') q hq (hp'.suffix (dropName_suffix p'))
          rw [full_name, open_name]
          simp only [Bool.false_eq_true, false_and, not_false_eq_true, true_and, false_or]
          exact hround
        · rw [full_star, open_star]
          simp only [List.head?_cons, List.tail_cons, Bool.false_eq_true, false_and, not_false_eq_true, true_and,
            false_or]
          by_cases hq0 : q = []
          · simp [hq0]
          · have hstar := starLoop_spec (fun p => matchLoop fuel p q) q.head? p' .notMatch (by simp)
            have hround : ∀ s, s <:+ p' → _ := fun s hs => ih s q hq (hp'.suffix hs)
            simp only [hq0, false_or, if_false, if_true, ne_eq, not_true_eq_false, Option.some.injEq,
              show ¬((42 : UInt8) = 63) by decide] at hstar ⊢
            rw [hstar.1, hstar.2]
            refine ⟨exists_congr fun s => and_congr_right fun hs => ?_,
              exists_congr fun s => and_congr_right fun hs => ?_⟩
            · rw [(hround s hs).1]
            · rw [← ne_eq (matchLoop fuel s q), (hround s hs).2]
        · rw [full_char ha, open_char ha]
          simp only [List.head?_cons, Option.some.injEq, ha.1, ha.2, if_false]
          cases p' with
          | nil => simp [matchEnd]
          | cons b p =>
            have hb : b ≠ a := by simpa using hne
            simp [matchEnd, hb]

/-! ## The outcome in terms of the language -/

/-- Every star of `b` is followed there by a character that stands for itself, but for one that ends the pattern. -/
def StarsFollowed (b rest : CString) : Prop :=
  ∀ u v, b = u ++ 42 :: v → (∃ a w, v = a :: w ∧ Literal a) ∨ (v = [] ∧ rest = [])

/-- What a path of the language needs beside to be a match. -/
structure FullSeen (q p : CString) : Prop where
  /-- A path that is empty needs an empty pattern. -/
  path : p = [] → q = []
  stars : StarsFollowed q []
  /-- The pattern does not end in "??". -/
  names : ¬[63, 63] <:+ q
  /-- If it ends in "?*", the star begins at a slash. -/
  nameStar : ∀ u, q = u ++ [63, 42] → Matches (u ++ [63, slash, 42]) p

/-- A beginning of the pattern matches, with no star behind it unless a name or nothing stands before that star. -/
def PartSeen (q p : CString) : Prop :=
  ∃ b rest, q = b ++ rest ∧ Matches b p ∧ StarsFollowed b rest ∧
    (rest.head? = some 42 → b = [] ∨ [63] <:+ b)

theorem starsFollowed_nil (rest : CString) : StarsFollowed [] rest := by
  intro u v h
  cases u <;> cases h

theorem starsFollowed_cons : StarsFollowed (a :: b) c ↔
    (a = 42 → (∃ x w, b = x :: w ∧ Literal x) ∨ (b = [] ∧ c = [])) ∧ StarsFollowed b c := by
  constructor
  · intro h
    refine ⟨fun ha => h [] b (by rw [ha]; rfl), fun u v huv => h (a :: u) v (by rw [huv]; rfl)⟩
  · rintro ⟨hhead, hrest⟩ u v huv
    cases u with
    | nil =>
      obtain ⟨rfl, rfl⟩ := List.cons.inj huv
      exact hhead rfl
    | cons x u => exact hrest u v (List.cons.inj huv).2

/-- `PartSeen` behind the head of the loop, where a star may also begin if nothing was read. -/
def PartAt (head : Bool) (q p : CString) : Prop :=
  ∃ b rest, q = b ++ rest ∧ Matches b p ∧ StarsFollowed b rest ∧
    (rest.head? = some 42 → (b = [] ∧ head = true) ∨ [63] <:+ b)

theorem suffix_one_cons (hs : [63] <:+ a :: b) (ha : a = 63 → b ≠ []) : [63] <:+ b := by
  rcases List.suffix_cons_iff.mp hs with he | hs
  · obtain ⟨rfl, rfl⟩ := List.cons.inj he
    exact absurd rfl (ha rfl)
  · exact hs

/-- The character that a suffix of the path shares with the pattern stands for itself. -/
theorem literal_of_head (hp : Literals p) (hs : s <:+ p) (hne : s ≠ []) (hh : s.head? = q.head?) :
    ∃ x r w, s = x :: r ∧ q = x :: w ∧ Literal x := by
  cases s with
  | nil => exact absurd rfl hne
  | cons x r =>
    cases q with
    | nil => cases hh
    | cons y w =>
      obtain rfl : x = y := by simpa using hh
      exact ⟨x, r, w, rfl, rfl, (hp.suffix hs).cons.1⟩

theorem open_iff (q : CString) (h : Bool) (p : CString) (hp : Literals p) : Open h q p ↔ PartAt h q p := by
  induction q generalizing h p with
  | nil =>
    constructor
    · intro ho
      exact ⟨[], [], rfl, matches_nil.mpr ho, starsFollowed_nil _, by simp⟩
    · rintro ⟨b, rest, hq, hm, -, -⟩
      obtain ⟨rfl, -⟩ := List.append_eq_nil_iff.mp hq.symm
      exact matches_nil.mp hm
  | cons a q ih =>
    rcases kind_cases a with rfl | rfl | ha
    · -- a name
      rw [open_name, ih true _ (hp.suffix (dropName_suffix p))]
      constructor
      · rintro (⟨-, rfl⟩ | ⟨b, rest, rfl, hm, hstars, hcut⟩)
        · exact ⟨[], _, rfl, .nil, starsFollowed_nil _, by simp⟩
        · refine ⟨63 :: b, rest, rfl, .name hm, starsFollowed_cons.mpr ⟨by simp, hstars⟩, fun hr => Or.inr ?_⟩
          rcases hcut hr with ⟨rfl, -⟩ | hs
          · exact List.suffix_rfl
          · exact hs.trans (List.suffix_cons _ _)
      · rintro ⟨b, rest, hq, hm, hstars, hcut⟩
        cases b with
        | nil =>
          obtain rfl := matches_nil.mp hm
          exact Or.inr ((ih true _ hp).mp (open_head_nil q))
        | cons x b =>
          obtain ⟨rfl, rfl⟩ := List.cons.inj hq
          refine Or.inr ⟨b, rest, rfl, matches_name.mp hm, (starsFollowed_cons.mp hstars).2, fun hr => ?_⟩
          have hs := (hcut hr).resolve_left (by simp)
          by_cases hb : b = []
          · exact Or.inl ⟨hb, rfl⟩
          · exact Or.inr (suffix_one_cons hs (fun _ => hb))
    · -- a star
      rw [open_star]
      constructor
      · rintro (⟨rfl, rfl⟩ | rfl | ⟨s, hs, hne, hh, ho⟩)
        · exact ⟨[], _, rfl, .nil, starsFollowed_nil _, fun _ => Or.inl ⟨rfl, rfl⟩⟩
        · exact ⟨[42], [], rfl, .star List.nil_suffix .nil,
            starsFollowed_cons.mpr ⟨fun _ => Or.inr ⟨rfl, rfl⟩, starsFollowed_nil _⟩, by simp⟩
        · obtain ⟨b, rest, rfl, hm, hstars, hcut⟩ := (ih true s (hp.suffix hs)).mp ho
          obtain ⟨x, r, w, rfl, hq, hx⟩ := literal_of_head hp hs hne hh
          -- the beginning that matches is not empty, so that the star is followed
          cases b with
          | nil => exact absurd (matches_nil.mp hm) hne
          | cons y b =>
            obtain ⟨rfl, -⟩ := List.cons.inj hq
            refine ⟨42 :: y :: b, rest, rfl, .star hs hm,
              starsFollowed_cons.mpr ⟨fun _ => Or.inl ⟨y, b, rfl, hx⟩, hstars⟩, fun hr => Or.inr ?_⟩
            exact ((hcut hr).resolve_left (by simp)).trans (List.suffix_cons _ _)
      · rintro ⟨b, rest, hq, hm, hstars, hcut⟩
        cases b with
        | nil =>
          obtain rfl := matches_nil.mp hm
          rw [List.nil_append] at hq
          have hh := (hcut (by rw [← hq]; rfl)).resolve_right (by simp)
          exact Or.inl ⟨hh.2, rfl⟩
        | cons x b =>
          obtain ⟨rfl, rfl⟩ := List.cons.inj hq
          obtain ⟨hnext, hstars⟩ := starsFollowed_cons.mp hstars
          rcases hnext rfl with ⟨x, w, rfl, hx⟩ | ⟨rfl, rfl⟩
          · obtain ⟨s, hs, hm⟩ := matches_star.mp hm
            obtain ⟨r, rfl, -⟩ := (matches_char hx).mp hm
            refine Or.inr (Or.inr ⟨x :: r, hs, by simp, by simp, (ih true _ (hp.suffix hs)).mpr
              ⟨x :: w, rest, rfl, hm, hstars, fun hr => Or.inr ?_⟩⟩)
            exact suffix_one_cons ((hcut hr).resolve_left (by simp)) (by simp)
          · exact Or.inr (Or.inl rfl)
    · -- a character
      rw [open_char ha]
      constructor
      · rintro (rfl | ⟨r, rfl, ho⟩)
        · exact ⟨[], _, rfl, .nil, starsFollowed_nil _, fun hr => absurd (Option.some.inj hr) ha.2⟩
        · obtain ⟨b, rest, rfl, hm, hstars, hcut⟩ := (ih false r hp.cons.2).mp ho
          refine ⟨a :: b, rest, rfl, .char ha hm, starsFollowed_cons.mpr ⟨fun h => absurd h ha.2, hstars⟩,
            fun hr => Or.inr ?_⟩
          exact ((hcut hr).resolve_left (by simp)).trans (List.suffix_cons _ _)
      · rintro ⟨b, rest, hq, hm, hstars, hcut⟩
        cases b with
        | nil => exact Or.inl (matches_nil.mp hm)
        | cons x b =>
          obtain ⟨rfl, rfl⟩ := List.cons.inj hq
          obtain ⟨r, rfl, hm'⟩ := (matches_char ha).mp hm
          refine Or.inr ⟨r, rfl, (ih false r hp.cons.2).mpr
            ⟨b, rest, rfl, hm', (starsFollowed_cons.mp hstars).2, fun hr => Or.inr ?_⟩⟩
          exact suffix_one_cons ((hcut hr).resolve_left (by simp)) (fun h => absurd h ha.1)

/-- `FullSeen` behind the head of the loop, where a path that is used up may still meet wildcards. -/
structure FullAt (head : Bool) (q p : CString) : Prop where
  inLanguage : Matches q p
  path : head = true → p = [] → q = []
  stars : StarsFollowed q []
  names : ¬[63, 63] <:+ q
  nameStar : ∀ u, q = u ++ [63, 42] → Matches (u ++ [63, slash, 42]) p

/-- A pattern of the empty path in which every star is followed: names, and perhaps a star behind them. -/
theorem wild_shape (hm : Matches q []) (hstars : StarsFollowed q []) :
    ∃ k, q = List.replicate k 63 ∨ q = List.replicate k 63 ++ [42] := by
  induction q with
  | nil => exact ⟨0, Or.inl rfl⟩
  | cons a q ih =>
    obtain ⟨hnext, hrest⟩ := starsFollowed_cons.mp hstars
    rcases kind_cases a with rfl | rfl | ha
    · obtain ⟨k, rfl | rfl⟩ := ih (matches_name.mp hm) hrest
      · exact ⟨k + 1, Or.inl rfl⟩
      · exact ⟨k + 1, Or.inr rfl⟩
    · rcases hnext rfl with ⟨x, w, rfl, hx⟩ | ⟨rfl, -⟩
      · obtain ⟨s, hs, hm⟩ := matches_star.mp hm
        obtain ⟨r, rfl, -⟩ := (matches_char hx).mp hm
        cases List.suffix_nil.mp hs
      · exact ⟨0, Or.inr rfl⟩
    · obtain ⟨r, hr, -⟩ := (matches_char ha).mp hm
      cases hr

theorem matches_names_nil (k : Nat) : Matches (List.replicate k 63 ++ q) [] ↔ Matches q [] := by
  induction k with
  | zero => rfl
  | succ k ih => rw [List.replicate_succ, List.cons_append, matches_name, ← ih]; rfl

theorem matches_slash_nil : ¬Matches (slash :: q) [] := by
  intro h
  obtain ⟨r, hr, -⟩ := (matches_char ⟨by decide, by decide⟩).mp h
  cases hr

/-- A name that ends the path ends the pattern as well, if the pattern is to be read to its end. -/
theorem FullAt.name_ends (h : FullAt false (63 :: q) p) (hp : dropName p = []) : q = [] := by
  by_contra hne
  have hm : Matches q [] := hp ▸ matches_name.mp h.inLanguage
  obtain ⟨k, rfl | rfl⟩ := wild_shape hm (starsFollowed_cons.mp h.stars).2
  · cases k with
    | zero => exact hne rfl
    | succ k =>
      apply h.names
      rw [← List.replicate_succ, show k + 1 + 1 = k + 2 from rfl, List.replicate_add]
      exact List.suffix_append _ _
  · -- the star would begin at a slash, and there is none
    have hstar := h.nameStar (List.replicate k 63) (by
      rw [← List.cons_append, ← List.replicate_succ, List.replicate_succ', List.append_assoc]; rfl)
    have : List.replicate k 63 ++ [63, slash, 42] = 63 :: (List.replicate k 63 ++ [slash, 42]) := by
      rw [← List.cons_append, ← List.replicate_succ, List.replicate_succ', List.append_assoc]; rfl
    rw [this, matches_name, hp, matches_names_nil] at hstar
    exact matches_slash_nil hstar

theorem FullAt.weaken (h : FullAt h q p) : FullAt false q p :=
  ⟨h.inLanguage, fun hc => absurd hc (by decide), h.stars, h.names, h.nameStar⟩

/-- The star of "?*" may also take the slash. -/
theorem matches_nameStar (hm : Matches (u ++ [63, slash, 42]) p) : Matches (u ++ [63, 42]) p := by
  induction u generalizing p with
  | nil => exact .name (.star List.nil_suffix .nil)
  | cons a u ih =>
    rw [List.cons_append] at hm ⊢
    rcases kind_cases a with rfl | rfl | ha
    · exact .name (ih (matches_name.mp hm))
    · obtain ⟨s, hs, hm⟩ := matches_star.mp hm
      exact .star hs (ih hm)
    · obtain ⟨r, rfl, hm'⟩ := (matches_char ha).mp hm
      exact .char ha (ih hm')

theorem fullAt_char (ha : Literal a) : FullAt h (a :: q) p ↔ ∃ r, p = a :: r ∧ FullAt false q r := by
  constructor
  · rintro ⟨hm, -, hstars, hnames, hstar⟩
    obtain ⟨r, rfl, hm'⟩ := (matches_char ha).mp hm
    refine ⟨r, rfl, hm', by simp, (starsFollowed_cons.mp hstars).2,
      fun hs => hnames (hs.trans (List.suffix_cons a q)), fun u hu => ?_⟩
    obtain ⟨r', hr, hm'⟩ := (matches_char ha).mp (hstar (a :: u) (by rw [hu]; rfl))
    exact (List.cons.inj hr).2 ▸ hm'
  · rintro ⟨r, rfl, hm, -, hstars, hnames, hstar⟩
    refine ⟨.char ha hm, by simp, starsFollowed_cons.mpr ⟨fun h => absurd h ha.2, hstars⟩, fun hs => ?_, ?_⟩
    · rcases List.suffix_cons_iff.mp hs with he | hs
      · exact ha.1 (List.cons.inj he).1.symm
      · exact hnames hs
    · intro u hu
      cases u with
      | nil => exact absurd (List.cons.inj hu).1 ha.1
      | cons x u =>
        obtain ⟨rfl, rfl⟩ := List.cons.inj hu
        exact .char ha (hstar u rfl)

theorem fullAt_name : FullAt h (63 :: q) p ↔ ¬(h = true ∧ p = []) ∧ FullAt true q (dropName p) := by
  constructor
  · intro hf
    refine ⟨fun hc => absurd (hf.path hc.1 hc.2) (by simp), matches_name.mp hf.inLanguage,
      fun _ hp => hf.weaken.name_ends hp, (starsFollowed_cons.mp hf.stars).2,
      fun hs => hf.names (hs.trans (List.suffix_cons _ q)), fun u hu => ?_⟩
    exact matches_name.mp (hf.nameStar (63 :: u) (by rw [hu]; rfl))
  · rintro ⟨hhead, hm, hpath, hstars, hnames, hstar⟩
    refine ⟨.name hm, fun hh hp => absurd ⟨hh, hp⟩ hhead, starsFollowed_cons.mpr ⟨by simp, hstars⟩, fun hs => ?_, ?_⟩
    · rcases List.suffix_cons_iff.mp hs with he | hs
      · -- "??": the second name is empty and ends the path
        obtain rfl : q = [63] := (List.cons.inj he).2.symm
        have hend := matches_nil.mp (matches_name.mp hm)
        rw [dropName_idem] at hend
        exact absurd (hpath rfl hend) (by simp)
      · exact hnames hs
    · intro u hu
      cases u with
      | nil =>
        obtain rfl : q = [42] := (List.cons.inj hu).2
        rcases dropName_cases p with hend | ⟨r, hr⟩
        · exact absurd (hpath rfl hend) (by simp)
        · refine .name ?_
          rw [hr]
          exact .char ⟨by decide, by decide⟩ (.star List.nil_suffix .nil)
      | cons x u =>
        obtain ⟨rfl, rfl⟩ := List.cons.inj hu
        exact .name (hstar u rfl)

theorem fullAt_star (hp : Literals p) : FullAt h (42 :: q) p ↔ ¬(h = true ∧ p = []) ∧
    (q = [] ∨ ∃ s, s <:+ p ∧ s ≠ [] ∧ s.head? = q.head? ∧ FullAt true q s) := by
  constructor
  · intro hf
    refine ⟨fun hc => absurd (hf.path hc.1 hc.2) (by simp), ?_⟩
    obtain ⟨hnext, hstars⟩ := starsFollowed_cons.mp hf.stars
    rcases hnext rfl with ⟨x, w, rfl, hx⟩ | ⟨rfl, -⟩
    · -- where the pattern ends in "?*" the place of the star is the one that leaves it a slash
      have hplace : ∃ s, s <:+ p ∧ Matches (x :: w) s ∧
          ∀ u, x :: w = u ++ [63, 42] → Matches (u ++ [63, slash, 42]) s := by
        by_cases hend : ∃ u, x :: w = u ++ [63, 42]
        · obtain ⟨u, hu⟩ := hend
          obtain ⟨s, hs, hm⟩ := matches_star.mp (hf.nameStar (42 :: u) (by rw [hu]; rfl))
          refine ⟨s, hs, hu ▸ matches_nameStar hm, fun u' hu' => ?_⟩
          rwa [← List.append_cancel_right (hu.symm.trans hu')]
        · obtain ⟨s, hs, hm⟩ := matches_star.mp hf.inLanguage
          exact ⟨s, hs, hm, fun u hu => absurd ⟨u, hu⟩ hend⟩
      obtain ⟨s, hs, hm, hstar⟩ := hplace
      obtain ⟨r, rfl, -⟩ := (matches_char hx).mp hm
      exact Or.inr ⟨x :: r, hs, by simp, rfl, hm, by simp, hstars,
        fun hn => hf.names (hn.trans (List.suffix_cons _ _)), hstar⟩
    · exact Or.inl rfl
  · rintro ⟨hhead, hq⟩
    refine ⟨?_, fun hh hp => absurd ⟨hh, hp⟩ hhead, starsFollowed_cons.mpr ?_, fun hs => ?_, fun u hu => ?_⟩
    · rcases hq with rfl | ⟨s, hs, -, -, hf⟩
      · exact .star List.nil_suffix .nil
      · exact .star hs hf.inLanguage
    · rcases hq with rfl | ⟨s, hs, hne, hh, hf⟩
      · exact ⟨fun _ => Or.inr ⟨rfl, rfl⟩, starsFollowed_nil _⟩
      · obtain ⟨x, r, w, -, rfl, hx⟩ := literal_of_head hp hs hne hh
        exact ⟨fun _ => Or.inl ⟨x, w, rfl, hx⟩, hf.stars⟩
    · rcases List.suffix_cons_iff.mp hs with he | hs
      · exact absurd (List.cons.inj he).1 (by decide)
      · rcases hq with rfl | ⟨s, -, -, -, hf⟩
        · simp at hs
        · exact hf.names hs
    · cases u with
      | nil => exact absurd (List.cons.inj hu).1 (by decide)
      | cons x u =>
        obtain ⟨rfl, rfl⟩ := List.cons.inj hu
        rcases hq with he | ⟨s, hs, -, -, hf⟩
        · simp at he
        · exact .star hs (hf.nameStar u rfl)

theorem full_iff (q : CString) (h : Bool) (p : CString) (hp : Literals p) : Full h q p ↔ FullAt h q p := by
  induction q generalizing h p with
  | nil =>
    refine ⟨fun hf => ⟨matches_nil.mpr hf, fun _ _ => rfl, starsFollowed_nil _, by simp, ?_⟩,
      fun hf => matches_nil.mp hf.inLanguage⟩
    intro u hu
    exact absurd hu.symm (by simp)
  | cons a q ih =>
    rcases kind_cases a with rfl | rfl | ha
    · rw [full_name, fullAt_name, ih true _ (hp.suffix (dropName_suffix p))]
    · rw [full_star, fullAt_star hp]
      refine and_congr_right fun _ => or_congr_right (exists_congr fun s => and_congr_right fun hs => ?_)
      rw [ih true s (hp.suffix hs)]
    · rw [full_char ha, fullAt_char ha]
      refine exists_congr fun r => and_congr_right fun hr => ?_
      rw [ih false r (hr ▸ hp).cons.2]

/-! ## The claim of `match_query` -/

theorem matchQuery_full (hp : Literals p) : matchQuery p q = .fullMatch ↔ Matches q p ∧ FullSeen q p := by
  rw [matchQuery, (matchLoop_spec _ p q le_rfl hp).1, full_iff q true p hp]
  constructor
  · intro h
    exact ⟨h.inLanguage, h.path rfl, h.stars, h.names, h.nameStar⟩
  · rintro ⟨hm, h⟩
    exact ⟨hm, fun _ => h.path, h.stars, h.names, h.nameStar⟩

theorem matchQuery_open (hp : Literals p) : matchQuery p q ≠ .notMatch ↔ PartSeen q p := by
  rw [matchQuery, (matchLoop_spec _ p q le_rfl hp).2, open_iff q true p hp]
  simp [PartAt, PartSeen]

/-- **The patterns of queries.** `match_query` finds the paths of the pattern, and does not give up the paths above
    one of them, exactly where a path of the language is `FullSeen` and a path above one is `PartSeen`. -/
theorem match_query_exact (p q : CString) (hp : Literals p) :
    ((matchQuery p q = .fullMatch ↔ Matches q p) ∧
      ∀ r, Literals r → Matches q (p ++ slash :: r) → matchQuery p q ≠ .notMatch) ↔
    (Matches q p → FullSeen q p) ∧ ((∃ r, Literals r ∧ Matches q (p ++ slash :: r)) → PartSeen q p) := by
  rw [matchQuery_full hp, matchQuery_open hp]
  constructor
  · rintro ⟨hfull, hpart⟩
    exact ⟨fun hm => (hfull.mpr hm).2, fun ⟨r, hr, hm⟩ => hpart r hr hm⟩
  · rintro ⟨hfull, hpart⟩
    exact ⟨⟨fun h => h.1, fun hm => ⟨hm, hfull hm⟩⟩, fun r hr hm => hpart ⟨r, hr, hm⟩⟩

/-- Nothing below the node "/data/a" is found by the pattern of all nodes `x` two levels below the data. -/
theorem match_query_gives_up : ∃ p q r, Literals p ∧ Literals r ∧ Matches q (p ++ slash :: r) ∧
    matchQuery p q = .notMatch :=
  ⟨cstr "/data/a", cstr "/data/*/x", cstr "x", by decide +kernel⟩

theorem match_query_exact_data : Literals (cstr "/data/a") ∧
    (((matchQuery (cstr "/data/a") (cstr "/data/?") = .fullMatch ↔ Matches (cstr "/data/?") (cstr "/data/a")) ∧
      ∀ r, Literals r → Matches (cstr "/data/?") (cstr "/data/a" ++ slash :: r) →
        matchQuery (cstr "/data/a") (cstr "/data/?") ≠ .notMatch) ↔
    (Matches (cstr "/data/?") (cstr "/data/a") → FullSeen (cstr "/data/?") (cstr "/data/a")) ∧
      ((∃ r, Literals r ∧ Matches (cstr "/data/?") (cstr "/data/a" ++ slash :: r)) →
        PartSeen (cstr "/data/?") (cstr "/data/a"))) :=
  ⟨by decide +kernel, match_query_exact _ _ (by decide +kernel)⟩

end DSLink.Query
