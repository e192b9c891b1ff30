import DSLink.Sdk.Base64Check

/-!
# `Sdk.Base64Bounds` — what `dslink_base64_url_decode` reads and writes

The decoder on a text with nothing behind it: there is a result exactly where no byte behind the text is read, no entry
of the table from 128 on, and no byte behind `dLen` is written. The second pass goes on up to the next multiple of
four, and the characters that do not end a group of four are lost.

## Contents
- `characters`, `significant`: what the two passes count.
- `takenOff`: the bytes that are not written because of an '='.
- `meaningful`, `InBounds`, `bounds_exact`.
-/

namespace DSLink.Base64

variable {s t : CString} {w out : List UInt8} {n j x acc e : Nat}

/-! ## What the passes count -/

/-- The text without its line breaks and spaces. -/
def characters : CString → CString
  | [] => []
  | c :: rest =>
    if c = 32 ∨ c = 10 ∨ c = 13 ∧ rest.head? = some 10 then characters rest else c :: characters rest

/-- The counts of the first pass. -/
theorem firstPass_counts {counts : Nat × Nat} (h : firstPass s x n j = some counts) :
    counts = (n + (characters s).length, j + s.count 46) := by
  induction s generalizing x n j with
  | nil =>
    obtain rfl := Option.some.inj h
    rfl
  | cons c s ih =>
    rw [firstPass] at h
    rw [characters]
    by_cases hspace : c = 32
    · rw [if_pos hspace] at h
      rw [if_pos (.inl hspace), List.count_cons_of_ne (by rw [hspace]; decide)]
      exact ih h
    · rw [if_neg hspace] at h
      by_cases hcrlf : c = 13 ∧ s.head? = some 10
      · rw [if_pos hcrlf] at h
        rw [if_pos (.inr (.inr hcrlf)), List.count_cons_of_ne (by rw [hcrlf.1]; decide)]
        exact ih h
      · rw [if_neg hcrlf] at h
        by_cases hlf : c = 10
        · rw [if_pos hlf] at h
          rw [if_pos (.inr (.inl hlf)), List.count_cons_of_ne (by rw [hlf]; decide)]
          exact ih h
        · rw [if_neg hlf] at h
          rw [if_neg (by rintro (h1 | h1 | h1); exacts [hspace h1, hlf h1, hcrlf h1]), List.length_cons]
          obtain ⟨-, h⟩ := Option.ite_none_left_eq_some.mp h
          dsimp only at h
          obtain ⟨-, h⟩ := Option.ite_none_left_eq_some.mp h
          cases hv : decMap c with
          | none =>
            rw [hv] at h
            cases h
          | some v =>
            rw [hv] at h
            dsimp only at h
            obtain ⟨-, h⟩ := Option.ite_none_left_eq_some.mp h
            obtain ⟨-, h⟩ := Option.ite_none_left_eq_some.mp h
            -- the character is counted, and a dot twice
            rw [ih h]
            by_cases hdot : c = 46
            · rw [if_pos hdot, hdot, List.count_cons_self]
              refine Prod.ext ?_ ?_
              · show n + 1 + _ = n + (_ + 1)
                omega
              · show j + 1 + _ = j + (_ + 1)
                omega
            · rw [if_neg hdot, List.count_cons_of_ne hdot]
              refine Prod.ext ?_ rfl
              show n + 1 + _ = n + (_ + 1)
              omega

/-- The characters that the second pass does not skip. -/
def significant (s : CString) : CString := s.filter fun b => !skipped b

/-- `j` after `e` characters '='. -/
def padsLeft (e : Nat) : Nat := (4294967299 - e % 4294967296) % 4294967296

/-- The bytes that the '=' take off the whole groups of four characters, when `e` of them are before the text: every
    group loses one for each '=' up to its end, while these are three at most. -/
def takenOff : Nat → CString → Nat
  | e, a :: b :: c :: d :: rest =>
    let e := e + [a, b, c, d].count 61
    (if e % 4294967296 ≤ 3 then e % 4294967296 else 0) + takenOff e rest
  | _, _ => 0

theorem takenOff_short {e : Nat} (h : t.length < 4) : takenOff e t = 0 := by
  match t, h with
  | [], _ => rfl
  | [_], _ => rfl
  | [_, _], _ => rfl
  | [_, _, _], _ => rfl

/-- Without an '=' nothing is taken off. -/
theorem takenOff_zero : ∀ t : CString, 61 ∉ t → takenOff 0 t = 0
  | a :: b :: c :: d :: rest, h => by
    have hcount : [a, b, c, d].count 61 = 0 := by
      apply List.count_eq_zero.mpr
      intro hmem
      exact h (List.mem_append_left rest hmem)
    have hrest : 61 ∉ rest := fun hmem => h (List.mem_append_right [a, b, c, d] hmem)
    rw [takenOff, hcount]
    show 0 + takenOff 0 rest = 0
    rw [Nat.zero_add]
    exact takenOff_zero rest hrest
  | [], _ => rfl
  | [_], _ => rfl
  | [_, _], _ => rfl
  | [_, _, _], _ => rfl

theorem decMap_pad (b : UInt8) : decMap b = some 64 ↔ b = 61 := by
  by_cases hb : b < 128
  · obtain ⟨v, hv, -, hpad, -⟩ := decMap_ascii hb
    rw [hv, Option.some.injEq, hpad]
  · rw [decMap_high hb]
    refine iff_of_false (by simp) ?_
    rintro rfl
    exact hb (by decide)

theorem padsLeft_pad (e : Nat) : (padsLeft e + 4294967295) % 4294967296 = padsLeft (e + 1) := by
  unfold padsLeft
  omega

/-- A group is written but for what is taken off. -/
theorem length_emitted_padsLeft (e x : Nat) :
    (emitted (padsLeft e) x).length + (if e % 4294967296 ≤ 3 then e % 4294967296 else 0) = 3 := by
  rw [length_emitted, padsLeft]
  split <;> omega

/-- The second pass, `before` being the characters of the group that have been read. -/
theorem length_secondPass (before : CString) (hbefore : before.length < 4)
    (h : secondPass s (padsLeft (e + before.count 61)) before.length acc out = some w) :
    w.length + takenOff e (before ++ significant s) =
      out.length + 3 * ((before ++ significant s).length / 4) := by
  induction s generalizing e acc out before with
  | nil =>
    obtain rfl := Option.some.inj h
    have hnil : before ++ significant [] = before := List.append_nil before
    rw [hnil, takenOff_short hbefore, Nat.div_eq_of_lt hbefore]
  | cons c s ih =>
    by_cases hskip : skipped c = true
    · rw [secondPass_skipped hskip] at h
      have hsig : significant (c :: s) = significant s := List.filter_cons_of_neg (by simpa using hskip)
      rw [hsig]
      exact ih before hbefore h
    · have hskip' : skipped c = false := by simpa using hskip
      have hsig : significant (c :: s) = c :: significant s := List.filter_cons_of_pos (by simpa using hskip)
      rw [secondPass_mapped hskip'] at h
      obtain ⟨v, hv, h⟩ := Option.bind_eq_some_iff.mp h
      dsimp only at h
      -- `j` goes down with every '='
      have hpads : (if v = 64 then (padsLeft (e + before.count 61) + 4294967295) % 4294967296
          else padsLeft (e + before.count 61)) = padsLeft (e + (before ++ [c]).count 61) := by
        rw [List.count_append]
        by_cases hpad : c = 61
        · have hv64 : v = 64 := Option.some.inj (hv.symm.trans ((decMap_pad c).mpr hpad))
          rw [if_pos hv64, hpad, List.count_singleton_self, padsLeft_pad, Nat.add_assoc]
        · have hv64 : v ≠ 64 := fun h64 => hpad ((decMap_pad c).mp (h64 ▸ hv))
          rw [if_neg hv64, List.count_singleton, beq_eq_false_iff_ne.mpr hpad]
          rfl
      rw [hpads] at h
      have hstep : (before ++ [c]).length = before.length + 1 := by rw [List.length_append, List.length_singleton]
      have hmove : before ++ significant (c :: s) = before ++ [c] ++ significant s := by
        rw [hsig, List.append_assoc]
        rfl
      rw [hmove]
      by_cases hfour : before.length + 1 = 4
      · -- the group ends, and the next one starts without characters
        rw [if_pos hfour] at h
        obtain ⟨a, b, d, rfl⟩ := List.length_eq_three.mp (by omega : before.length = 3)
        have hgroup := length_emitted_padsLeft (e + [a, b, d, c].count 61) ((acc * 64 + v % 64) % 4294967296)
        have hrest := @ih _ _ (e + [a, b, d, c].count 61) [] (by decide) h
        rw [List.length_append] at hrest
        show w.length + takenOff e (a :: b :: d :: c :: significant s) =
          out.length + 3 * (((significant s).length + 4) / 4)
        rw [takenOff, Nat.add_div_right _ (by decide : 0 < 4)]
        simp only [List.nil_append] at hrest
        change (emitted (padsLeft (e + ([a, b, d] ++ [c]).count 61)) _).length + _ = 3 at hgroup
        omega
      · rw [if_neg hfour, ← hstep] at h
        exact ih (before ++ [c]) (by omega) h

/-! ## The bounds -/

/-- The bytes that a text stands for: six bits for every character of the alphabet. -/
def meaningful (s : CString) : Nat := (s.filter alphabet).length * 6 / 8

/-- The decoder has a result when only the text itself can be read, and where it returns 0 it has written no more than
    `dLen` bytes, and reports the number of meaningful bytes. -/
def InBounds (dLen : Nat) (s : CString) : Prop :=
  ∃ d, base64UrlDecode dLen s s.length = some d ∧
    (d.code = .ok → d.written.length ≤ dLen ∧ d.oLen = some (meaningful s) ∧ meaningful s ≤ dLen)

/-- The characters of the alphabet and the dots are among those that are counted. -/
theorem alphabet_add_dots (s : CString) : (s.filter alphabet).length + s.count 46 ≤ (characters s).length := by
  induction s with
  | nil => exact Nat.le_refl 0
  | cons c s ih =>
    rw [characters]
    split
    · rename_i hbreak
      have hc : c = 32 ∨ c = 10 ∨ c = 13 := hbreak.imp id (Or.imp id And.left)
      have hno : alphabet c = false ∧ c ≠ 46 := by
        rcases hc with rfl | rfl | rfl <;> decide
      rw [List.filter_cons_of_neg (by simp [hno.1]), List.count_cons_of_ne hno.2]
      exact ih
    · rw [List.length_cons]
      by_cases hdot : c = 46
      · rw [hdot, List.filter_cons_of_neg (by decide), List.count_cons_self]
        omega
      · rw [List.count_cons_of_ne hdot]
        rw [List.filter_cons]
        split
        · rw [List.length_cons]
          omega
        · omega

/-- The room that is asked for is enough for the meaningful bytes. -/
theorem meaningful_le (h : Accepted s) : meaningful s ≤ ((characters s).length * 6 + 7) / 8 - s.count 46 := by
  have hcount : s.count 46 ≤ 2 := by
    have hpads := h.padding.1
    rw [← List.countP_eq_length_filter] at hpads
    refine Nat.le_trans (Nat.le_of_eq ?_) hpads
    unfold List.count
    congr 1
    funext b
    simp [beq_eq_decide]
  have hchars := alphabet_add_dots s
  unfold meaningful
  omega

theorem length_secondPass_text (h : secondPass s 3 0 0 [] = some w) :
    w.length + takenOff 0 (significant s) = 3 * ((significant s).length / 4) := by
  have hstart : secondPass s (padsLeft (0 + ([] : CString).count 61)) ([] : CString).length 0 [] = some w := h
  have hall := length_secondPass [] (by decide) hstart
  rw [List.nil_append, List.length_nil, Nat.zero_add] at hall
  exact hall

/-- On an accepted text. -/
theorem inBounds_of_accepted (h : Accepted s) {dLen : Nat} (hd : dLen < 18446744073709551616) :
    InBounds dLen s ↔ characters s = [] ∨ dLen < ((characters s).length * 6 + 7) / 8 - s.count 46 ∨
      s.length % 4 = 0 ∧ 3 * ((significant s).length / 4) = meaningful s + takenOff 0 (significant s) := by
  obtain ⟨counts, hfirst⟩ := Option.isSome_iff_exists.mp (firstPass_isSome.mpr h)
  have hcounts := firstPass_counts hfirst
  rw [Nat.zero_add, Nat.zero_add] at hcounts
  subst hcounts
  have hroom := meaningful_le h
  unfold InBounds base64UrlDecode
  rw [if_neg (Nat.lt_irrefl _), List.take_length, hfirst]
  dsimp only
  by_cases hnil : characters s = []
  · have hnone : meaningful s = 0 := by
      have hle := alphabet_add_dots s
      rw [hnil, List.length_nil] at hle
      unfold meaningful
      omega
    rw [if_pos (by rw [hnil]; rfl), hnone]
    exact iff_of_true ⟨_, rfl, fun _ => ⟨Nat.zero_le _, rfl, Nat.zero_le _⟩⟩ (.inl hnil)
  · rw [if_neg (fun h0 => hnil (List.length_eq_zero_iff.mp h0))]
    by_cases hsmall : dLen < ((characters s).length * 6 + 7) / 8 - s.count 46
    · rw [if_pos hsmall]
      exact iff_of_true ⟨_, rfl, fun hok => by cases hok⟩ (.inr (.inl hsmall))
    · rw [if_neg hsmall, or_iff_right hnil, or_iff_right hsmall]
      by_cases haligned : s.length % 4 = 0
      · have hsame : alignedLen s.length = s.length := by
          unfold alignedLen
          omega
        -- nothing behind the text is read, and what is written is what `takenOff` leaves
        rw [hsame, if_neg (Nat.lt_irrefl _), List.take_length, and_iff_right haligned]
        have hsome : (secondPass s 3 0 0 []).isSome = true := secondPass_isSome h.ascii
        obtain ⟨w, hw⟩ := Option.isSome_iff_exists.mp hsome
        have hlen := length_secondPass_text hw
        rw [hw]
        show (∃ d, (if dLen < w.length then none else some _) = some d ∧ _) ↔ _
        constructor
        · rintro ⟨d, hrun, hall⟩
          obtain ⟨-, hrun⟩ := Option.ite_none_left_eq_some.mp hrun
          obtain rfl := Option.some.inj hrun
          obtain ⟨hle, holen, -⟩ := hall rfl
          have hsize : sizeSub w.length (s.length - s.length) = meaningful s := Option.some.inj holen
          unfold sizeSub at hsize
          change w.length ≤ dLen at hle
          omega
        · intro hsum
          have hmean : w.length = meaningful s := by omega
          have hle : w.length ≤ dLen := by omega
          refine ⟨_, if_neg (Nat.not_lt.mpr hle), fun _ => ⟨hle, ?_, by omega⟩⟩
          show some (sizeSub w.length (s.length - s.length)) = some (meaningful s)
          rw [sizeSub]
          congr 1
          omega
      · -- the second pass reads behind the text
        have hmore : s.length < alignedLen s.length := by
          unfold alignedLen
          omega
        rw [if_pos hmore]
        refine iff_of_false ?_ (fun hall => haligned hall.1)
        rintro ⟨d, hnone, -⟩
        cases hnone

/-- The decoder keeps to its bounds exactly when the text is refused, has no characters, or does not fit, or when its
    length is a multiple of four and the characters of its whole groups are those of the alphabet, but for one behind
    the last of these groups; with an '=', when what the '=' take off is what the whole groups have too many. -/
theorem bounds_exact (s : CString) (dLen : Nat) (hd : dLen < 18446744073709551616) :
    InBounds dLen s ↔ ¬ Accepted s ∨ characters s = [] ∨
      dLen < ((characters s).length * 6 + 7) / 8 - s.count 46 ∨
      s.length % 4 = 0 ∧ if 61 ∈ s
        then 3 * ((significant s).length / 4) = meaningful s + takenOff 0 (significant s)
        else (s.filter alphabet).length % 4 ≤ 1 ∧ (significant s).length / 4 = (s.filter alphabet).length / 4 := by
  by_cases h : Accepted s
  · rw [inBounds_of_accepted h hd, or_iff_right (not_not.mpr h)]
    apply or_congr_right
    apply or_congr_right
    apply and_congr_right
    intro _
    by_cases hpad : 61 ∈ s
    · rw [if_pos hpad]
    · have hsig : 61 ∉ significant s := fun hmem => hpad (List.mem_of_mem_filter hmem)
      rw [if_neg hpad, takenOff_zero _ hsig, meaningful]
      omega
  · refine iff_of_true ?_ (.inl h)
    have hnone : firstPass s 0 0 0 = none := by
      cases hfirst : firstPass s 0 0 0 with
      | none => rfl
      | some counts => exact absurd (firstPass_isSome.mp (by rw [hfirst]; rfl)) h
    refine ⟨⟨.invalidCharacter, none, []⟩, ?_, fun hok => by cases hok⟩
    unfold base64UrlDecode
    rw [if_neg (Nat.lt_irrefl _), List.take_length, hnone]

theorem bounds_exact_group : InBounds 3 (cstr "QUJD") :=
  (bounds_exact (cstr "QUJD") 3 (by decide)).mpr (.inr (.inr (.inr (by decide))))

/-- Two characters: the decoder reads two bytes behind them. -/
theorem short_tail_read : ¬ InBounds 3 (cstr "AA") := by
  rintro ⟨d, hrun, -⟩
  have hnone : base64UrlDecode 3 (cstr "AA") (cstr "AA").length = none := by
    decide
  rw [hnone] at hrun
  cases hrun

end DSLink.Base64
