import DSLink.Broker.Http

/-!
# `Broker.UriParams` — the parameters of a request, in the memory that holds them

`broker_http_parse_uri` writes its terminators over the separators of the text it goes over, and `HttpUri` points into
that text. What has been recorded stays as it is read, since all later terminators are written behind it, so the
pointers lead to the strings that `brokerHttpParseUri` has: the segments between the '&', each cut at its first '='.

## Contents
- `parseUri`, `paramGet`: the two functions over the memory.
- `segments`, `keyValue`, `valueUnder`: the parameters of a target by splitting it.
- `uriParams_eq`, `readUri_parseUri`, `param_get_split`.
-/

namespace DSLink.Http

/-! ## In place -/

/-- The string at a place. -/
def stringAt (mem : List UInt8) (p : Nat) : CString := (mem.drop p).takeWhile (· ≠ 0)

/-- `strstr` from a place on. -/
def strstrAt (mem : List UInt8) (p : Nat) (needle : CString) : Option Nat :=
  (strstr (stringAt mem p) needle).map fun t => p + ((stringAt mem p).length - t.length)

/-- The parse on its way: the memory, `data`, and the `pos` first entries of `paramKeys` and `paramValues`. The other
    entries are NULL. -/
structure Parsing where
  mem : List UInt8
  data : Nat
  params : List (Nat × Option Nat)

/-- At `no_value`. -/
def Parsing.noValue (st : Parsing) (loc : Nat) : Parsing :=
  ⟨st.mem.set loc 0, loc + 1, st.params ++ [(st.data, none)]⟩

/-- One turn of the loop, with the '&' at `loc`. -/
def Parsing.turn (st : Parsing) (loc : Nat) : Parsing :=
  match strstrAt st.mem st.data [61] with
  | some sep =>
    if loc < sep then st.noValue loc
    else ⟨(st.mem.set sep 0).set loc 0, loc + 1, st.params ++ [(st.data, some (sep + 1))]⟩
  | none => st.noValue loc

/-- The loop; `BROKER_URI_PARAMS_SIZE - pos` turns are left. -/
def Parsing.loop : Nat → Parsing → Parsing
  | 0, st => st
  | left + 1, st =>
    match strstrAt st.mem st.data [38] with
    | some loc => Parsing.loop left (st.turn loc)
    | none => st

/-- What is behind the last '&'. -/
def Parsing.last (st : Parsing) : Parsing :=
  if st.mem.getD st.data 0 ≠ 0 ∧ st.params.length < 8 then
    match strstrAt st.mem st.data [61] with
    | some sep => ⟨st.mem.set sep 0, sep + 1, st.params ++ [(st.data, some (sep + 1))]⟩
    | none => { st with params := st.params ++ [(st.data, none)] }
  else st

/-- `HttpUri` with the memory it points into. -/
structure UriAt where
  mem : List UInt8
  resource : Nat
  params : List (Nat × Option Nat)

/-- `broker_http_parse_uri` on the string at `data`. -/
def parseUri (mem : List UInt8) (data : Nat) : UriAt :=
  match strstrAt mem data [63] with
  | none => ⟨mem, data, []⟩
  | some loc =>
    let st := (Parsing.loop 8 ⟨mem.set loc 0, loc + 1, []⟩).last
    ⟨st.mem, data, st.params⟩

/-- `broker_http_param_get`. -/
def paramGet (uri : UriAt) (name : CString) : Option Nat :=
  (uri.params.find? fun param => stringAt uri.mem param.1 = name).bind Prod.snd

/-! ## Splitting -/

/-- The part before the first '?'. -/
def resourceOf (target : CString) : CString := target.takeWhile (· ≠ 63)

/-- The part after the first '?'. -/
def queryOf (target : CString) : CString := (target.dropWhile (· ≠ 63)).tail

/-- The list without a final empty text. -/
def withoutFinalEmpty (parts : List CString) : List CString :=
  if parts.getLast? = some [] then parts.dropLast else parts

/-- The segments that are kept. -/
def segments (query : CString) : List CString := (withoutFinalEmpty (query.splitOn 38)).take 8

/-- A segment, split at its first '='. -/
def keyValue (segment : CString) : CString × Option CString :=
  (segment.takeWhile (· ≠ 61), if 61 ∈ segment then some (segment.dropWhile (· ≠ 61)).tail else none)

/-- The value of the first segment with the key `name`. -/
def valueUnder (target name : CString) : Option CString :=
  (((segments (queryOf target)).map keyValue).find? fun param => param.1 = name).bind Prod.snd

/-! ## A separator in a text -/

variable {s seg rest stop query : CString} {c : UInt8}

/-- A separator is found where the text before it has none. -/
theorem strstr_sep (h : c ∉ seg) : strstr (seg ++ c :: rest) [c] = some (c :: rest) := by
  apply firstTail_eq_some.mpr
  induction seg with
  | nil => exact .here (by simp [List.isPrefixOf])
  | cons a seg ih =>
    rw [List.mem_cons, not_or] at h
    exact (ih h.2).cons (by simp [List.isPrefixOf, h.1])

theorem strstr_none (h : c ∉ s) : strstr s [c] = none := by
  apply firstTail_eq_none.mpr
  intro u hu
  by_contra hp
  have hpre : [c] <+: u := List.isPrefixOf_iff_prefix.mp (by simpa using hp)
  exact h (hu.subset (hpre.subset List.mem_cons_self))

/-! ## The parameters are the segments -/

theorem keyValue_sep {k v : CString} (h : 61 ∉ k) : keyValue (k ++ 61 :: v) = (k, some v) := by
  unfold keyValue
  rw [takeWhile_sep h, dropWhile_sep h, if_pos (by simp)]
  rfl

theorem keyValue_none (h : 61 ∉ seg) : keyValue seg = (seg, none) := by
  unfold keyValue
  rw [if_neg h, takeWhile_none h]

/-- An '=' behind the segment is not taken for its own. -/
theorem uriParam_eq (hstop : stop.head? ≠ some 61) : uriParam (seg ++ stop) stop = keyValue seg := by
  unfold uriParam
  rcases sep_cases 61 seg with h | ⟨k, v, rfl, hk⟩
  · -- the '=' that is found, if any, is behind the separator
    rw [keyValue_none h]
    rcases sep_cases 61 stop with hno | ⟨k, v, rfl, hk⟩
    · rw [strstr_none (by simp [h, hno])]
      dsimp only
      rw [upTo_left]
    · rw [← List.append_assoc, strstr_sep (by simp [h, hk])]
      have hlt : (61 :: v).length < (k ++ 61 :: v).length := by
        rw [List.length_append]
        have hpos : k ≠ [] := by
          rintro rfl
          exact hstop rfl
        have := List.length_pos_iff.mpr hpos
        omega
      dsimp only
      rw [if_pos hlt, List.append_assoc, upTo_left]
  · rw [keyValue_sep hk, List.append_assoc, List.cons_append, strstr_sep hk]
    have hge : ¬(61 :: (v ++ stop)).length < stop.length := by
      rw [List.length_cons, List.length_append]
      omega
    dsimp only
    rw [if_neg hge, upTo_left]
    show (k, some (upTo (v ++ stop) stop)) = _
    rw [upTo_left]

theorem withoutFinalEmpty_cons {parts : List CString} (h : parts ≠ []) :
    withoutFinalEmpty (seg :: parts) = seg :: withoutFinalEmpty parts := by
  unfold withoutFinalEmpty
  rw [List.getLast?_cons_of_ne_nil h, List.dropLast_cons_of_ne_nil h]
  split <;> rfl

theorem uriParams_sep (hseg : 38 ∉ seg) (left : Nat) :
    uriParams (left + 1) (seg ++ 38 :: rest) = keyValue seg :: uriParams left rest := by
  rw [uriParams, strstr_sep hseg]
  dsimp only
  rw [uriParam_eq (by simp), List.tail_cons]

theorem uriParams_none (h : 38 ∉ query) (left : Nat) :
    uriParams (left + 1) query = if query = [] then [] else [keyValue query] := by
  have hparam : uriParam (query ++ []) [] = keyValue query := uriParam_eq (by simp)
  rw [List.append_nil] at hparam
  rw [uriParams, strstr_none h]
  dsimp only
  rw [hparam]

/-- The parameters that are recorded are the segments. -/
theorem uriParams_eq (left : Nat) (query : CString) :
    uriParams left query = ((withoutFinalEmpty (query.splitOn 38)).take left).map keyValue := by
  induction left generalizing query with
  | zero => rfl
  | succ left ih =>
    rcases sep_cases 38 query with h | ⟨seg, rest, rfl, hseg⟩
    · rw [uriParams_none h, List.splitOn_eq_singleton h]
      by_cases hnil : query = []
      · rw [if_pos hnil, hnil]
        rfl
      · have hone : withoutFinalEmpty [query] = [query] := if_neg (by simpa using hnil)
        rw [if_neg hnil, hone, List.take_of_length_le (by simp)]
        rfl
    · rw [uriParams_sep hseg, List.splitOn_append_cons_self_of_not_mem hseg,
        withoutFinalEmpty_cons (List.splitOn_ne_nil 38 rest), List.take_succ_cons, List.map_cons, ih]

/-! ## Places in the memory -/

/-- A parameter as it is read. -/
def readParam (mem : List UInt8) (param : Nat × Option Nat) : CString × Option CString :=
  (stringAt mem param.1, param.2.map (stringAt mem))

/-- `HttpUri` with the strings that its pointers lead to. -/
def readUri (uri : UriAt) : HttpUri := ⟨stringAt uri.mem uri.resource, uri.params.map (readParam uri.mem)⟩

variable {done after target more : List UInt8} {p left : Nat} {st : Parsing} {needle t : CString}
  {params : List (CString × Option CString)} {base : List UInt8}

theorem stringAt_append (h : 0 ∉ s) : stringAt (done ++ (s ++ 0 :: more)) done.length = s := by
  rw [stringAt, List.drop_left, takeWhile_sep h]

theorem strstrAt_append (h : 0 ∉ s) : strstrAt (done ++ (s ++ 0 :: more)) done.length needle =
    (strstr s needle).map fun t => done.length + (s.length - t.length) := by
  rw [strstrAt, stringAt_append h]

/-- The place of a separator. -/
theorem strstrAt_sep (h : 0 ∉ seg ++ c :: rest) (hseg : c ∉ seg) :
    strstrAt (done ++ (seg ++ c :: rest ++ 0 :: more)) done.length [c] = some (done ++ seg).length := by
  rw [strstrAt_append h, strstr_sep hseg, Option.map_some, List.length_append, List.length_append,
    Nat.add_sub_cancel]

theorem strstrAt_none (h : 0 ∉ s) (hc : c ∉ s) : strstrAt (done ++ (s ++ 0 :: more)) done.length [c] = none := by
  rw [strstrAt_append h, strstr_none hc]
  rfl

theorem set_length (a b : UInt8) : (done ++ a :: more).set done.length b = done ++ b :: more := by
  simp

/-- The parse at the end of `done`: `rest` is still to be gone over, and what has been recorded is read from `done`
    alone. -/
structure Settled (base done rest after : List UInt8) (st : Parsing) (params : List (CString × Option CString)) :
    Prop where
  mem : st.mem = done ++ (rest ++ 0 :: after)
  data : st.data = done.length
  noNul : 0 ∉ rest
  keeps : base <+: done
  reads : ∀ more, st.params.map (readParam (done ++ more)) = params

variable {k v cut : CString} {st' : Parsing} {kv : CString × Option CString} {param : Nat × Option Nat} {s : CString}

theorem readParam_key (h : 0 ∉ seg) : readParam (done ++ (seg ++ 0 :: more)) (done.length, none) = (seg, none) := by
  rw [readParam, stringAt_append h]
  rfl

theorem readParam_pair (hk : 0 ∉ k) (hv : 0 ∉ v) :
    readParam (done ++ (k ++ 0 :: v ++ 0 :: more)) (done.length, some ((done ++ k).length + 1)) = (k, some v) := by
  have hkey : done ++ (k ++ 0 :: v ++ 0 :: more) = done ++ (k ++ 0 :: (v ++ 0 :: more)) := by simp
  have hval : done ++ (k ++ 0 :: (v ++ 0 :: more)) = done ++ k ++ [0] ++ (v ++ 0 :: more) := by simp
  have hplace : (done ++ k).length + 1 = (done ++ k ++ [0]).length := by simp [Nat.add_assoc]
  rw [readParam, hkey, stringAt_append hk, hval, hplace, Option.map_some, stringAt_append hv]

/-- One more parameter is recorded, and `cut` with its terminator is settled. -/
theorem Settled.extend (h : Settled base done s after st params) (hrest : 0 ∉ rest)
    (hread : ∀ more, readParam (done ++ (cut ++ 0 :: more)) param = kv)
    (hmem : st'.mem = done ++ (cut ++ 0 :: (rest ++ 0 :: after))) (hdata : st'.data = (done ++ cut).length + 1)
    (hparams : st'.params = st.params ++ [param]) :
    Settled base (done ++ (cut ++ [0])) rest after st' (params ++ [kv]) := by
  refine ⟨?_, ?_, hrest, h.keeps.trans (List.prefix_append _ _), fun more => ?_⟩
  · rw [hmem]
    simp
  · rw [hdata]
    simp
    omega
  · have hmore : done ++ (cut ++ [0]) ++ more = done ++ (cut ++ 0 :: more) := by simp
    rw [hparams, hmore, List.map_append, h.reads, List.map_singleton, hread]

theorem Settled.noValue (h : Settled base done (seg ++ 38 :: rest) after st params) :
    Settled base (done ++ (seg ++ [0])) rest after (st.noValue (done ++ seg).length) (params ++ [(seg, none)]) := by
  have hno : 0 ∉ seg ∧ 0 ∉ rest := by
    have hall := h.noNul
    simp only [List.mem_append, List.mem_cons, not_or] at hall
    exact ⟨hall.1, hall.2.2⟩
  refine h.extend hno.2 (fun more => readParam_key hno.1) ?_ rfl ?_
  · have hmem : done ++ (seg ++ 38 :: rest ++ 0 :: after) = done ++ seg ++ 38 :: (rest ++ 0 :: after) := by simp
    show st.mem.set (done ++ seg).length 0 = _
    rw [h.mem, hmem, set_length, List.append_assoc]
  · show st.params ++ [(st.data, none)] = _
    rw [h.data]

/-- One turn of the loop. -/
theorem Settled.turn (h : Settled base done (seg ++ 38 :: rest) after st params) (hseg : 38 ∉ seg) : ∃ done',
    Settled base done' rest after (st.turn (done ++ seg).length) (params ++ [keyValue seg]) := by
  have hall := h.noNul
  have hstr : strstrAt st.mem st.data [61] = strstrAt (done ++ (seg ++ 38 :: rest ++ 0 :: after)) done.length [61] := by
    rw [h.mem, h.data]
  unfold Parsing.turn
  rw [hstr]
  rcases sep_cases 61 seg with hno | ⟨k, v, rfl, hk⟩
  · rw [keyValue_none hno]
    refine ⟨done ++ (seg ++ [0]), ?_⟩
    rcases sep_cases 61 rest with hnone | ⟨k, v, rfl, hk⟩
    · rw [strstrAt_none hall (by simp [hno, hnone])]
      exact h.noValue
    · -- the '=' of a later segment
      have hlater : seg ++ 38 :: (k ++ 61 :: v) = seg ++ 38 :: k ++ 61 :: v := by simp
      rw [hlater] at hall ⊢
      rw [strstrAt_sep hall (by simp [hno, hk])]
      dsimp only
      rw [if_pos (by simp)]
      exact h.noValue
  · have hsplit : k ++ 61 :: v ++ 38 :: rest = k ++ 61 :: (v ++ 38 :: rest) := by simp
    have hno : 0 ∉ k ∧ 0 ∉ v ∧ 0 ∉ rest := by
      simp only [List.mem_append, List.mem_cons, not_or] at hall
      exact ⟨hall.1.1, hall.1.2.2, hall.2.2⟩
    rw [hsplit] at hall ⊢
    rw [keyValue_sep hk, strstrAt_sep hall hk]
    dsimp only
    rw [if_neg (by simp)]
    refine ⟨done ++ (k ++ 0 :: v ++ [0]),
      h.extend hno.2.2 (fun more => readParam_pair hno.1 hno.2.1) ?_ ?_ ?_⟩
    · have hmem : done ++ (k ++ 61 :: v ++ 38 :: rest ++ 0 :: after) =
          done ++ k ++ 61 :: (v ++ 38 :: (rest ++ 0 :: after)) := by simp
      have hmem' : done ++ k ++ 0 :: (v ++ 38 :: (rest ++ 0 :: after)) =
          done ++ (k ++ 0 :: v) ++ 38 :: (rest ++ 0 :: after) := by simp
      have hloc : (done ++ (k ++ 61 :: v)).length = (done ++ (k ++ 0 :: v)).length := by simp
      show (st.mem.set (done ++ k).length 0).set (done ++ (k ++ 61 :: v)).length 0 = _
      rw [h.mem, hmem, set_length, hmem', hloc, set_length, List.append_assoc]
    · show (done ++ (k ++ 61 :: v)).length + 1 = _
      simp
    · show st.params ++ [(st.data, some ((done ++ k).length + 1))] = _
      rw [h.data]

/-- The loop stops at a text without '&', or with all entries taken. -/
theorem Settled.loop (h : Settled base done s after st params) (hleft : left + params.length = 8) :
    ∃ done' rest params', Settled base done' rest after (Parsing.loop left st) params' ∧
      params ++ uriParams left s =
        params' ++ if rest ≠ [] ∧ params'.length < 8 then [keyValue rest] else [] := by
  induction left generalizing done s st params with
  | zero =>
    refine ⟨done, s, params, h, ?_⟩
    rw [if_neg (by omega)]
    rfl
  | succ left ih =>
    rw [Parsing.loop, h.mem, h.data]
    rcases sep_cases 38 s with hno | ⟨seg, rest, rfl, hseg⟩
    · rw [strstrAt_none h.noNul hno]
      refine ⟨done, s, params, h, ?_⟩
      rw [uriParams_none hno]
      by_cases hnil : s = []
      · rw [if_pos hnil, if_neg (fun hboth => hboth.1 hnil)]
      · rw [if_neg hnil, if_pos ⟨hnil, by omega⟩]
    · rw [strstrAt_sep h.noNul hseg]
      obtain ⟨done', hturn⟩ := h.turn hseg
      obtain ⟨done'', rest', params', hloop, heq⟩ := ih hturn (by rw [List.length_append, List.length_singleton]; omega)
      refine ⟨done'', rest', params', hloop, ?_⟩
      rw [uriParams_sep hseg, ← heq, List.append_assoc]
      rfl

/-- The last parameter. -/
theorem Settled.last (h : Settled base done rest after st params) : ∃ more, st.last.mem = done ++ more ∧
    st.last.params.map (readParam st.last.mem) =
      params ++ if rest ≠ [] ∧ params.length < 8 then [keyValue rest] else [] := by
  have hlen : st.params.length = params.length := by
    rw [← h.reads [], List.length_map]
  have hcond : st.mem.getD st.data 0 ≠ 0 ∧ st.params.length < 8 ↔ rest ≠ [] ∧ params.length < 8 := by
    rw [h.mem, h.data, hlen]
    apply and_congr_left
    intro _
    cases rest with
    | nil => simp
    | cons b rest =>
      have hb : b ≠ 0 := fun h0 => h.noNul (by rw [h0]; exact List.mem_cons_self)
      simp [hb]
  unfold Parsing.last
  by_cases hlast : rest ≠ [] ∧ params.length < 8
  · rw [if_pos (hcond.mpr hlast), if_pos hlast, h.mem, h.data]
    rcases sep_cases 61 rest with hno | ⟨k, v, rfl, hk⟩
    · rw [strstrAt_none h.noNul hno, keyValue_none hno]
      refine ⟨_, rfl, ?_⟩
      dsimp only
      rw [List.map_append, h.reads, List.map_singleton, readParam_key h.noNul]
    · have hno : 0 ∉ k ∧ 0 ∉ v := by
        have hall := h.noNul
        simp only [List.mem_append, List.mem_cons, not_or] at hall
        exact ⟨hall.1, hall.2.2⟩
      have hmem : done ++ (k ++ 61 :: v ++ 0 :: after) = done ++ k ++ 61 :: (v ++ 0 :: after) := by simp
      have hcut : (done ++ (k ++ 61 :: v ++ 0 :: after)).set (done ++ k).length 0 =
          done ++ (k ++ 0 :: v ++ 0 :: after) := by
        rw [hmem, set_length]
        simp
      rw [strstrAt_sep h.noNul hk, keyValue_sep hk]
      dsimp only
      rw [hcut]
      refine ⟨_, rfl, ?_⟩
      rw [List.map_append, h.reads, List.map_singleton, readParam_pair hno.1 hno.2]
  · rw [if_neg (fun hc => hlast (hcond.mp hc)), if_neg hlast, List.append_nil]
    exact ⟨rest ++ 0 :: after, h.mem, by rw [h.mem]; exact h.reads _⟩

/-! ## The parse -/

/-- The pointers of the parse lead to the strings of `brokerHttpParseUri`. -/
theorem readUri_parseUri (before target after : List UInt8) (h : 0 ∉ target) :
    readUri (parseUri (before ++ (target ++ 0 :: after)) before.length) = brokerHttpParseUri target := by
  unfold parseUri brokerHttpParseUri
  rcases sep_cases 63 target with hno | ⟨resource, query, rfl, hresource⟩
  · rw [strstrAt_none h hno, strstr_none hno]
    dsimp only
    rw [readUri, stringAt_append h]
    rfl
  · have hnul : 0 ∉ resource ∧ 0 ∉ query := by
      simp only [List.mem_append, List.mem_cons, not_or] at h
      exact ⟨h.1, h.2.2⟩
    have hmem : before ++ (resource ++ 63 :: query ++ 0 :: after) =
        before ++ resource ++ 63 :: (query ++ 0 :: after) := by simp
    have hstart : Settled (before ++ (resource ++ [0])) (before ++ (resource ++ [0])) query after
        ⟨before ++ resource ++ 0 :: (query ++ 0 :: after), (before ++ resource).length + 1, []⟩ [] := by
      refine ⟨?_, ?_, hnul.2, List.prefix_refl _, fun _ => rfl⟩
      · simp
      · simp [Nat.add_assoc]
    -- from here on all that is written is behind the terminator of the resource
    obtain ⟨done, rest, params, hloop, hparams⟩ := hstart.loop (show 8 + 0 = 8 from rfl)
    obtain ⟨more, hlast, hread⟩ := hloop.last
    rw [strstrAt_sep h hresource, strstr_sep hresource, hmem]
    dsimp only
    rw [set_length]
    obtain ⟨kept, hkept⟩ := hloop.keeps
    -- the terminator of the resource is still there
    have hfirst : stringAt (done ++ more) before.length = resource := by
      rw [← hkept]
      have hsplit : before ++ (resource ++ [0]) ++ kept ++ more = before ++ (resource ++ 0 :: (kept ++ more)) := by simp
      rw [hsplit, stringAt_append hnul.1]
    rw [readUri, hread, ← hparams, hlast, hfirst, upTo_left]
    rfl

/-- The value that a pointer of `broker_http_param_get` leads to. -/
theorem paramGet_read (uri : UriAt) (name : CString) :
    (paramGet uri name).map (stringAt uri.mem) = brokerHttpParamGet (readUri uri) name := by
  unfold paramGet brokerHttpParamGet readUri
  rw [List.find?_map, Option.map_bind, Option.bind_map]
  rfl

theorem brokerHttpParseUri_eq (target : CString) :
    brokerHttpParseUri target = ⟨resourceOf target, (segments (queryOf target)).map keyValue⟩ := by
  unfold brokerHttpParseUri resourceOf queryOf
  rcases sep_cases 63 target with hno | ⟨resource, query, rfl, hresource⟩
  · rw [strstr_none hno, takeWhile_none hno, dropWhile_none hno]
    rfl
  · rw [strstr_sep hresource, takeWhile_sep hresource, dropWhile_sep hresource]
    dsimp only
    rw [upTo_left, List.tail_cons, uriParams_eq]
    rfl

/-- After the parse, what `broker_http_param_get` returns is the value of the first of the segments with that key, and
    the resource is the part before the '?'. -/
theorem param_get_split (before target after : List UInt8) (name : CString) (h : 0 ∉ target) :
    let uri := parseUri (before ++ (target ++ 0 :: after)) before.length
    (paramGet uri name).map (stringAt uri.mem) = valueUnder target name ∧
      stringAt uri.mem uri.resource = resourceOf target := by
  intro uri
  have huri : readUri uri = ⟨resourceOf target, (segments (queryOf target)).map keyValue⟩ :=
    (readUri_parseUri before target after h).trans (brokerHttpParseUri_eq target)
  constructor
  · rw [paramGet_read, huri]
    rfl
  · exact congrArg HttpUri.resource huri

/-- A request whose first parameter has no '=', while the second one has. -/
def connRequest : List UInt8 := cstr "GET " ++ (cstr "/conn?a&dsId=b" ++ 0 :: cstr "HTTP/1.1")

theorem param_get_split_conn : let uri := parseUri connRequest 4
    ((paramGet uri (cstr "dsId")).map (stringAt uri.mem) = valueUnder (cstr "/conn?a&dsId=b") (cstr "dsId") ∧
      stringAt uri.mem uri.resource = cstr "/conn") ∧ paramGet uri (cstr "dsId") = some 17 :=
  ⟨param_get_split (cstr "GET ") (cstr "/conn?a&dsId=b") (cstr "HTTP/1.1") (cstr "dsId") (by decide),
    by decide⟩

end DSLink.Http
