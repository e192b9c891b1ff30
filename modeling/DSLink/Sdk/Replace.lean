import DSLink.Broker.Http
import DSLink.Lib.Rewrite

/-!
# `Sdk.Replace` — the replacement of all occurrences

`dslink_str_replace_all` of `sdk/src/utils.c`. Each call of `dslink_str_replace_all_rep` replaces the first occurrence
and searches the new text from its beginning again, so it also finds an occurrence that the replacements have made, and
it ends only when there is none.

## Contents
- `dslinkStrdup`, `dslinkStrReplaceAllRep`, `dslinkStrReplaceAll`.
- `replaceAll`: the occurrences of the text as it was, replaced.
- `replace_ends_iff`: the texts that the calls can end with.
- `str_replace_all_exact`.
-/

namespace DSLink

variable {haystack needle replacement result : CString} {malloc : Nat → Bool} {shouldDup : Bool} {fuel : Nat}

/-- `dslink_strdup`; `malloc size` is whether a block of this size is there. -/
def dslinkStrdup (malloc : Nat → Bool) (str : CString) : Option CString :=
  if malloc (str.length + 1) then some str else none

/-- `dslink_str_replace_all_rep`, in at most `fuel` calls. The inner `none` is `NULL`. -/
def dslinkStrReplaceAllRep (malloc : Nat → Bool) : Nat → CString → CString → CString → Bool → Option (Option CString)
  | 0, _, _, _, _ => none
  | fuel + 1, haystack, needle, replacement, shouldDup =>
    match strstr haystack needle with
    | none => some (if shouldDup then dslinkStrdup malloc haystack else some haystack)
    | some start =>
      -- the new text is searched from its beginning
      if malloc (haystack.length - needle.length + replacement.length + 1) then
        let dup := upTo haystack start ++ replacement ++ start.drop needle.length
        dslinkStrReplaceAllRep malloc fuel dup needle replacement false
      else some none

/-- `dslink_str_replace_all`. -/
def dslinkStrReplaceAll (malloc : Nat → Bool) (fuel : Nat) (haystack needle replacement : CString) :
    Option (Option CString) :=
  dslinkStrReplaceAllRep malloc fuel haystack needle replacement true

/-! ## What is asked of it -/

/-- The occurrences of the needle in the text as it was, replaced; an empty needle has none. -/
def replaceAll (haystack needle replacement : CString) : CString :=
  if needle = [] then haystack else replaceUpTo needle replacement haystack.length haystack

/-- With enough memory the calls come to an end, and the text is the replaced one. -/
def ReplacesAll (haystack needle replacement : CString) : Prop :=
  ∃ fuel, dslinkStrReplaceAll (fun _ => true) fuel haystack needle replacement =
    some (some (replaceAll haystack needle replacement))

/-- There is a needle, it is not in the replaced text, and when the first `i` occurrences are replaced, replacing what
`strstr` then finds first gives the text with the first `i + 1` replaced. -/
structure InOrder (haystack needle replacement : CString) : Prop where
  nonempty : needle ≠ []
  gone : ¬needle <:+: replaceAll haystack needle replacement
  first : ∀ i, replaceFirst needle replacement (replaceUpTo needle replacement i haystack) =
    replaceUpTo needle replacement (i + 1) haystack

/-! ## The calls as rounds -/

theorem rep_none (h : ¬needle <:+: haystack) : dslinkStrReplaceAllRep malloc (fuel + 1) haystack needle replacement
    shouldDup = some (if shouldDup then dslinkStrdup malloc haystack else some haystack) := by
  rcases find_cases needle haystack with ⟨hn, -⟩ | ⟨a, w, hf, -⟩
  · rw [dslinkStrReplaceAllRep, strstr, hn]
  · exact absurd hf.infix h

theorem rep_first {a w : CString} (h : FirstAt needle haystack a w) :
    dslinkStrReplaceAllRep malloc (fuel + 1) haystack needle replacement shouldDup =
      if malloc ((a ++ replacement ++ w).length + 1) then
        dslinkStrReplaceAllRep malloc fuel (a ++ replacement ++ w) needle replacement false
      else some none := by
  have hsize : haystack.length - needle.length + replacement.length + 1 = (a ++ replacement ++ w).length + 1 := by
    rw [h.eq]
    simp only [List.length_append]
    omega
  rw [dslinkStrReplaceAllRep, strstr, h.find]
  simp only [h.upTo, List.drop_left, hsize]

/-- With enough memory the calls end with a text exactly if rounds lead to it and it has no needle. -/
theorem replace_ends_iff : (∃ fuel, dslinkStrReplaceAllRep (fun _ => true) fuel haystack needle replacement shouldDup =
    some (some result)) ↔ ∃ k, Rounds needle replacement k haystack result ∧ ¬needle <:+: result := by
  constructor
  · rintro ⟨fuel, h⟩
    induction fuel generalizing haystack shouldDup with
    | zero => cases h
    | succ fuel ih =>
      rcases find_cases needle haystack with ⟨-, hn⟩ | ⟨a, w, hf, -⟩
      · rw [rep_none hn] at h
        have hsame : haystack = result := by
          cases shouldDup
          · exact Option.some.inj (Option.some.inj h)
          · exact Option.some.inj (Option.some.inj h)
        subst hsame
        exact ⟨0, .refl _, hn⟩
      · rw [rep_first hf, if_pos rfl] at h
        obtain ⟨k, hk, hn⟩ := ih h
        exact ⟨k + 1, .step hf hk, hn⟩
  · rintro ⟨k, hk, hn⟩
    induction hk generalizing shouldDup with
    | refl t =>
      refine ⟨1, ?_⟩
      rw [rep_none hn]
      cases shouldDup <;> rfl
    | step hf _ ih =>
      obtain ⟨fuel, h⟩ := ih hn
      refine ⟨fuel + 1, ?_⟩
      rw [rep_first hf, if_pos rfl, h]

/-- Without enough memory there is `NULL` or the same text. -/
theorem rep_null_or (h : dslinkStrReplaceAllRep malloc fuel haystack needle replacement shouldDup = some (some result)) :
    dslinkStrReplaceAllRep (fun _ => true) fuel haystack needle replacement shouldDup = some (some result) := by
  induction fuel generalizing haystack shouldDup with
  | zero => cases h
  | succ fuel ih =>
    rcases find_cases needle haystack with ⟨-, hn⟩ | ⟨a, w, hf, -⟩
    · rw [rep_none hn] at h ⊢
      cases shouldDup
      · exact h
      · simp only [dslinkStrdup, if_true] at h ⊢
        by_cases hm : malloc (haystack.length + 1) = true
        · rwa [if_pos hm] at h
        · rw [if_neg hm] at h
          cases h
    · rw [rep_first hf] at h ⊢
      by_cases hm : malloc ((a ++ replacement ++ w).length + 1) = true
      · rw [if_pos hm] at h
        rw [if_pos rfl]
        exact ih h
      · rw [if_neg hm] at h
        cases h

/-! ## When the text is the replaced one -/

theorem replaces_iff : ReplacesAll haystack needle replacement ↔
    (∃ k, Rounds needle replacement k haystack (replaceAll haystack needle replacement)) ∧
      ¬needle <:+: replaceAll haystack needle replacement :=
  replace_ends_iff.trans exists_and_right

theorem replaceAll_of_ne (h : needle ≠ []) :
    replaceAll haystack needle replacement = replaceUpTo needle replacement haystack.length haystack := if_neg h

/-- An empty needle is found in every text. -/
theorem needle_ne (h : ReplacesAll haystack needle replacement) : needle ≠ [] := by
  rintro rfl
  exact (replaces_iff.mp h).2 List.nil_infix

theorem InOrder.replaces (h : InOrder haystack needle replacement) : ReplacesAll haystack needle replacement := by
  refine replaces_iff.mpr ⟨?_, h.gone⟩
  rw [replaceAll_of_ne h.nonempty]
  exact rounds_in_order h.first haystack.length

theorem ReplacesAll.first (h : ReplacesAll haystack needle replacement)
    (hborder : ¬(replacement <+: needle ∧ replacement <:+ needle)) (i : Nat) :
    replaceFirst needle replacement (replaceUpTo needle replacement i haystack) =
      replaceUpTo needle replacement (i + 1) haystack := by
  obtain ⟨⟨k, hk⟩, hgone⟩ := replaces_iff.mp h
  rw [replaceAll_of_ne (needle_ne h)] at hk hgone
  exact in_order (needle_ne h) hgone hborder hk i

/-- The text is the replaced one if the occurrences are replaced in order, and otherwise at most if the replacement
both begins and ends the needle. Always there is a needle, which is not in the replaced text. -/
theorem str_replace_all_exact (haystack needle replacement : CString) :
    (InOrder haystack needle replacement → ReplacesAll haystack needle replacement) ∧
      (ReplacesAll haystack needle replacement →
        needle ≠ [] ∧ ¬needle <:+: replaceAll haystack needle replacement ∧
          (InOrder haystack needle replacement ∨ replacement <+: needle ∧ replacement <:+ needle)) := by
  refine ⟨InOrder.replaces, fun h => ⟨needle_ne h, (replaces_iff.mp h).2, ?_⟩⟩
  by_cases hborder : replacement <+: needle ∧ replacement <:+ needle
  · exact .inr hborder
  · exact .inl ⟨needle_ne h, (replaces_iff.mp h).2, h.first hborder⟩

/-- `"a"` by `"aa"` in `"a"` has no end. -/
theorem replace_has_no_end : ¬ReplacesAll [97] [97] [97, 97] :=
  fun h => (replaces_iff.mp h).2 ⟨[], [97], rfl⟩

end DSLink
