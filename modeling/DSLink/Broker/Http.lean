import DSLink.Broker.State
import DSLink.Lib.Tails

/-!
# `Broker.Http` — the requests of the HTTP server

`broker/src/net/http.c` with `dslink_strcasestr` of `sdk/src/utils.c`. The parser cuts the text that was read in
place; a pointer into a text is the rest of the text from there on. `broker_http_header_get` searches the block of
the headers for the name and needs a line break behind it, while the parser has cut the block before the last one.

## Contents
- `strstr`, `dslinkStrcasestr`.
- `brokerHttpParseUri`, `brokerHttpParamGet`, `brokerHttpParseReq`, `brokerHttpHeaderGet`.
- `HeaderLine`, `headerValue`: the lines of a header block, and the value under a name.
- `header_get_exact`: when the search returns that value.
-/

namespace DSLink

/-! ## The C library -/

/-- `strstr`. -/
def strstr (haystack needle : CString) : Option CString := firstTail needle.isPrefixOf haystack

/-- `tolower`. -/
def tolower (c : UInt8) : UInt8 := if 65 ≤ c ∧ c ≤ 90 then c + 32 else c

/-- Whether a text begins with a needle, up to the case of the letters. -/
def beginsNoCase (needle haystack : CString) : Bool := (needle.map tolower).isPrefixOf (haystack.map tolower)

/-- `dslink_strcasestr`. -/
def dslinkStrcasestr (haystack needle : CString) : Option CString := firstTail (beginsNoCase needle) haystack

namespace Http

/-- `"\r\n"`. -/
def crlf : CString := [13, 10]

/-! ## The requests -/

/-- `HttpUri`; a parameter without '=' has no value. -/
structure HttpUri where
  resource : CString
  params : List (CString × Option CString)
  deriving DecidableEq

/-- `HttpRequest`. -/
structure HttpRequest where
  method : CString
  headers : CString
  body : CString
  uri : HttpUri
  deriving DecidableEq

/-- A parameter from `data` up to `stop`. Its '=' may stand behind `stop`, where it is that of another one. -/
def uriParam (data stop : CString) : CString × Option CString :=
  match strstr data [61] with
  | some sep => if sep.length < stop.length then (upTo data stop, none) else (upTo data sep, some (upTo sep.tail stop))
  | none => (upTo data stop, none)

/-- The loop over the parameters and the last one of them; `BROKER_URI_PARAMS_SIZE - pos` are left. -/
def uriParams : Nat → CString → List (CString × Option CString)
  | 0, _ => []
  | left + 1, data =>
    match strstr data [38] with
    | some loc => uriParam data loc :: uriParams left loc.tail
    | none => if data = [] then [] else [uriParam data []]

/-- `broker_http_parse_uri`. -/
def brokerHttpParseUri (data : CString) : HttpUri :=
  match strstr data [63] with
  | none => ⟨data, []⟩
  | some loc => ⟨upTo data loc, uriParams 8 loc.tail⟩

/-- `broker_http_param_get`. -/
def brokerHttpParamGet (uri : HttpUri) (name : CString) : Option CString :=
  (uri.params.find? (fun param => param.1 = name)).bind Prod.snd

/-- `broker_http_parse_req`. -/
def brokerHttpParseReq (data : CString) : Option HttpRequest := do
  let loc ← strstr data [32]
  let method := upTo data loc
  let data := loc.tail
  let loc ← strstr data [32]
  let uri := brokerHttpParseUri (upTo data loc)
  let data := loc.tail
  let loc ← strstr data crlf
  let data := loc.drop 2
  let loc ← strstr data (crlf ++ crlf)
  some ⟨method, upTo data loc, loc.drop 4, uri⟩

/-- `broker_http_header_get`: the pointer that it returns and `*len`. -/
def brokerHttpHeaderGet (headers name : CString) : Option (CString × Nat) := do
  let loc ← dslinkStrcasestr headers name
  let headers := loc.drop name.length
  let loc ← strstr headers crlf
  let headers := if headers.head? = some 58 then headers.tail else headers
  let headers := headers.dropWhile (· = 32)
  some (headers, headers.length - loc.length)

/-! ## The header lines

The claim of the function in its own terms: a header line begins with the block or behind a line break, its field
name ends at the first colon, and its value goes from there to the end of the line. -/

/-- The line that begins at a place. -/
def lineAt (t : CString) : CString := upTo t ((strstr t crlf).getD [])

/-- Whether the line that begins at `t` has the field name `name`. -/
def fieldIs (name t : CString) : Bool :=
  58 ∈ lineAt t ∧ ((lineAt t).takeWhile (· ≠ 58)).map tolower = name.map tolower

/-- Whether a line of the block begins at `t`. -/
def lineStart (headers t : CString) : Bool := t = headers ∨ (crlf ++ t).isSuffixOf headers

/-- At `t` begins a header line of the block with the field name `name`. -/
def HeaderLine (headers name t : CString) : Prop := t <:+ headers ∧ lineStart headers t = true ∧ fieldIs name t = true

/-- The value in the line at `t`, without the blanks before it, and its length. -/
def valueAt (t : CString) : CString × Nat :=
  let v := ((t.dropWhile (· ≠ 58)).tail).dropWhile (· = 32)
  (v, (lineAt v).length)

/-- The value of the first header line with the field name `name`. -/
def headerValue (headers name : CString) : Option (CString × Nat) :=
  (firstTail (fun t => lineStart headers t && fieldIs name t) headers).map valueAt

/-! ## The place of a name -/

variable {headers name t u f v : CString}

/-- The condition: the first place where the name stands is a header line with that field name and a line break
    follows it, or none follows it and there is no such header line. -/
def FirstPlaceRight (headers name : CString) : Prop :=
  ∀ t, FirstTail (beginsNoCase name) headers t →
    if crlf <:+: t.drop name.length then HeaderLine headers name t else ∀ u, ¬ HeaderLine headers name u

/-- The text at a header line is the field name, a colon and the rest. -/
theorem fieldIs_split (h : fieldIs name t = true) :
    ∃ f v, t = f ++ 58 :: v ∧ (58 : UInt8) ∉ f ∧ f.map tolower = name.map tolower := by
  simp only [fieldIs, decide_eq_true_eq] at h
  obtain ⟨hmem, hname⟩ := h
  obtain ⟨rest, hrest⟩ := upTo_prefix t ((strstr t crlf).getD [])
  change lineAt t ++ rest = t at hrest
  obtain ⟨f, w, hsplit, hf⟩ := List.eq_append_cons_of_mem hmem
  rw [hsplit, takeWhile_sep hf] at hname
  refine ⟨f, w ++ rest, ?_, hf, hname⟩
  rw [← hrest, hsplit, List.append_assoc, List.cons_append]

theorem length_of_map_eq (h : f.map tolower = name.map tolower) : f.length = name.length := by
  simpa using congrArg List.length h

/-- The name stands at every header line with that field name. -/
theorem beginsNoCase_of_fieldIs (h : fieldIs name t = true) : beginsNoCase name t = true := by
  obtain ⟨f, v, rfl, -, hf⟩ := fieldIs_split h
  simp [beginsNoCase, hf]

theorem valueAt_split (hf : (58 : UInt8) ∉ f) :
    valueAt (f ++ 58 :: v) = (v.dropWhile (· = 32), (lineAt (v.dropWhile (· = 32))).length) := by
  rw [valueAt, dropWhile_sep hf]
  rfl

/-! ## The search for the line break -/

theorem strstr_cons_ne {a : UInt8} (ha : a ≠ 13) (l : CString) : strstr (a :: l) crlf = strstr l crlf := by
  have : crlf.isPrefixOf (a :: l) = false := by simp [crlf, List.isPrefixOf, Ne.symm ha]
  rw [strstr, firstTail_cons, this]
  rfl

theorem strstr_dropWhile (l : CString) : strstr (l.dropWhile (· = 32)) crlf = strstr l crlf := by
  induction l with
  | nil => rfl
  | cons a l ih =>
    by_cases ha : a = 32
    · subst ha
      rw [strstr_cons_ne (by decide), List.dropWhile_cons_of_pos (by simp), ih]
    · rw [List.dropWhile_cons_of_neg (by simpa using ha)]

theorem strstr_isSome {l : CString} : (strstr l crlf).isSome ↔ crlf <:+: l := by
  constructor
  · intro h
    obtain ⟨t, ht⟩ := Option.isSome_iff_exists.mp h
    have hs := firstTail_spec ht
    exact (List.isPrefixOf_iff_prefix.mp hs.holds).isInfix.trans hs.tail.isInfix
  · rintro ⟨s, e, rfl⟩
    by_contra hn
    have := firstTail_eq_none.mp (Option.not_isSome_iff_eq_none.mp hn) (crlf ++ e) (by simp)
    rw [List.isPrefixOf_iff_prefix.mpr (List.prefix_append crlf e)] at this
    cases this

/-! ## What the function returns -/

/-- The function once the place of the name is known. -/
theorem headerGet_of_first (h : FirstTail (beginsNoCase name) headers t) :
    brokerHttpHeaderGet headers name =
      (strstr (t.drop name.length) crlf).map (fun loc =>
        let rest := if (t.drop name.length).head? = some 58 then (t.drop name.length).tail else t.drop name.length
        let v := rest.dropWhile (· = 32)
        (v, v.length - loc.length)) := by
  unfold brokerHttpHeaderGet
  rw [dslinkStrcasestr, firstTail_eq_some.mpr h]
  cases hs : strstr (t.drop name.length) crlf <;> simp [hs]

/-- At a header line the function returns the value that stands there. -/
theorem headerGet_at_line (h : FirstTail (beginsNoCase name) headers t) (hl : fieldIs name t = true)
    (hc : crlf <:+: t.drop name.length) : brokerHttpHeaderGet headers name = some (valueAt t) := by
  rw [headerGet_of_first h]
  obtain ⟨f, v, rfl, hf, hn⟩ := fieldIs_split hl
  rw [← length_of_map_eq hn, List.drop_left] at hc ⊢
  obtain ⟨loc, hloc⟩ := Option.isSome_iff_exists.mp (strstr_isSome.mpr hc)
  have hv : strstr (v.dropWhile (· = 32)) crlf = some loc := by
    rw [strstr_dropWhile, ← strstr_cons_ne (by decide : (58 : UInt8) ≠ 13), hloc]
  rw [hloc, valueAt_split hf, lineAt, hv, length_upTo]
  simp

/-- In front of a later header line the pointer that is returned comes before the value of that line. -/
theorem headerGet_before_line (h : FirstTail (beginsNoCase name) headers t) (hu : u <:+ t) (hne : u ≠ t)
    (hl : fieldIs name u = true) : brokerHttpHeaderGet headers name ≠ some (valueAt u) := by
  obtain ⟨f, v, rfl, hf, hn⟩ := fieldIs_split hl
  have hlen := length_of_map_eq hn
  -- behind the name at `t` there is something before the colon of the line
  have hrest : ∃ a w, t.drop name.length = a :: w ++ 58 :: v := by
    obtain ⟨s, rfl⟩ := hu
    have hs : s ≠ [] := fun he => hne (by simp [he])
    have hpos := List.length_pos_of_ne_nil hs
    have : ((s ++ f).drop name.length).length = s.length := by simp [hlen]
    cases hd : (s ++ f).drop name.length with
    | nil => simp [hd] at this; omega
    | cons a w =>
      refine ⟨a, w, ?_⟩
      rw [← hd, ← List.append_assoc, List.drop_append_of_le_length (by simp; omega)]
  obtain ⟨a, w, hd⟩ := hrest
  rw [headerGet_of_first h, hd, valueAt_split hf]
  intro he
  obtain ⟨loc, -, hv⟩ := Option.map_eq_some_iff.mp he
  have hptr := congrArg (fun r => r.1.length) hv
  -- the blanks that are skipped do not reach over that colon
  have hskip : ∀ x : CString, v.length < ((x ++ 58 :: v).dropWhile (· = 32)).length := by
    intro x
    induction x with
    | nil => simp
    | cons b x ih =>
      by_cases hb : b = 32
      · simpa [hb] using ih
      · simp [hb]
        omega
  have hle : (v.dropWhile (· = 32)).length ≤ v.length := (List.dropWhile_suffix _).length_le
  by_cases ha : a = 58
  · have := hskip w
    simp [ha] at hptr
    omega
  · have := hskip (a :: w)
    simp [ha] at hptr this
    omega

theorem headerValue_none (h : ∀ u, ¬ HeaderLine headers name u) : headerValue headers name = none := by
  rw [headerValue, firstTail_eq_none.mpr]
  · rfl
  · intro u hu
    by_contra hp
    simp only [Bool.and_eq_true, Bool.not_eq_false] at hp
    exact h u ⟨hu, hp.1, hp.2⟩

/-- Where there is a header line, the first of them gives the value. -/
theorem headerValue_some (h : HeaderLine headers name u) :
    ∃ t, HeaderLine headers name t ∧ u <:+ t ∧ headerValue headers name = some (valueAt t) := by
  cases hf : firstTail (fun t => lineStart headers t && fieldIs name t) headers with
  | none =>
    have := firstTail_eq_none.mp hf u h.1
    simp [h.2.1, h.2.2] at this
  | some t =>
    have ht := firstTail_spec hf
    have hp := Bool.and_eq_true_iff.mp ht.holds
    refine ⟨t, ⟨ht.tail, hp.1, hp.2⟩, ht.first u h.1 (by simp [h.2.1, h.2.2]), ?_⟩
    rw [headerValue, hf]
    rfl

/-- **The header lookup.** The search for a header returns the value of the first header line with that field name,
    and NULL where there is none, exactly where the condition holds. -/
theorem header_get_exact (headers name : CString) :
    brokerHttpHeaderGet headers name = headerValue headers name ↔ FirstPlaceRight headers name := by
  by_cases hfirst : ∃ t, FirstTail (beginsNoCase name) headers t
  · obtain ⟨t, ht⟩ := hfirst
    constructor
    · intro he t' ht'
      obtain rfl := ht.unique ht'
      split
      · rename_i hc
        -- the function returns a pointer, and so there is a line
        have hline : ∃ u, HeaderLine headers name u := by
          by_contra hn
          rw [headerValue_none (fun u hu => hn ⟨u, hu⟩), headerGet_of_first ht] at he
          obtain ⟨loc, hloc⟩ := Option.isSome_iff_exists.mp (strstr_isSome.mpr hc)
          rw [hloc] at he
          cases he
        obtain ⟨u, hu⟩ := hline
        obtain ⟨l, hl, -, hval⟩ := headerValue_some hu
        by_cases hlt : l = t
        · exact hlt ▸ hl
        · exact absurd (he.trans hval) (headerGet_before_line ht
            (ht.first l hl.1 (beginsNoCase_of_fieldIs hl.2.2)) hlt hl.2.2)
      · rename_i hc
        intro u hu
        obtain ⟨l, -, -, hval⟩ := headerValue_some hu
        have hnone : strstr (t.drop name.length) crlf = none :=
          Option.not_isSome_iff_eq_none.mp (fun h => hc (strstr_isSome.mp h))
        rw [hval, headerGet_of_first ht, hnone] at he
        cases he
    · intro h
      have hcond := h t ht
      split at hcond
      · rename_i hc
        rw [headerGet_at_line ht hcond.2.2 hc]
        obtain ⟨l, hl, htl, hval⟩ := headerValue_some hcond
        have : l = t := (ht.first l hl.1 (beginsNoCase_of_fieldIs hl.2.2)).eq_of_length_le htl.length_le
        rw [hval, this]
      · rename_i hc
        have hnone : strstr (t.drop name.length) crlf = none :=
          Option.not_isSome_iff_eq_none.mp (fun h => hc (strstr_isSome.mp h))
        rw [headerValue_none hcond, headerGet_of_first ht, hnone]
        rfl
  · -- the name does not stand in the block
    refine iff_of_true ?_ (fun t ht => absurd ⟨t, ht⟩ hfirst)
    have hnone : dslinkStrcasestr headers name = none := by
      cases h : dslinkStrcasestr headers name with
      | none => rfl
      | some t => exact absurd ⟨t, firstTail_spec h⟩ hfirst
    rw [headerValue_none (fun u hu => ?_), brokerHttpHeaderGet, hnone]
    · rfl
    · have := firstTail_eq_none.mp hnone u hu.1
      rw [beginsNoCase_of_fieldIs hu.2.2] at this
      cases this

/-- The last header is not found: the parser has cut the line break behind it. -/
theorem last_header_lost :
    ∃ data req name, brokerHttpParseReq data = some req ∧
      brokerHttpHeaderGet req.headers name ≠ headerValue req.headers name := by
  refine ⟨cstr "GET /ws HTTP/1.1\r\nHost: a\r\nKey: b\r\n\r\n",
    ⟨cstr "GET", cstr "Host: a\r\nKey: b", [], ⟨cstr "/ws", []⟩⟩, cstr "Key", ?_, ?_⟩
  · decide
  · decide

end Http

end DSLink
