import DSLink.Broker.FileNames

/-!
# `Sdk.Escape` — what comes back from an escaped text

`dslink_str_escape` and `dslink_str_unescape` of `sdk/src/utils.c`, as the names that `broker_data_node_update` of
`broker/src/data/data.c` gives to its files. A byte from 128 on is negative as a `char`: it counts as one to escape,
its first digit is that of a negative code, and only its low half is left in the second one.

## Contents
- `escape_append`, `ascii_escape`: the escaped text by its parts.
- `Reversible`, `SavedApart`: what is asked of one path among all others.
- `escape_exact`.
- `escapeCount`, `escapeEmit`: the two passes over a text; `escape_passes_agree`.
-/

namespace DSLink

variable {c : UInt8} {p p' : CString}

/-! ## Parts of an escaped text -/

theorem escape_append (p p' : CString) : dslinkStrEscape (p ++ p') = dslinkStrEscape p ++ dslinkStrEscape p' := by
  induction p with
  | nil => rfl
  | cons c p ih =>
    by_cases hc : Escaped c
    · rw [List.cons_append, escape_escaped hc, escape_escaped hc, ih]
      rfl
    · rw [List.cons_append, escape_copied hc, escape_copied hc, ih]
      rfl

/-- The digits of an escaped byte are ASCII exactly where the byte is. -/
theorem digits_ascii : Escaped c →
    (encodeBase16 (charVal c / 16) < 128 ∧ encodeBase16 (charVal c % 16) < 128 ↔ c < 128) :=
  forall_byte (P := fun c => Escaped c →
    (encodeBase16 (charVal c / 16) < 128 ∧ encodeBase16 (charVal c % 16) < 128 ↔ c < 128)) (by decide +kernel) c

theorem ascii_escape : Ascii (dslinkStrEscape p) ↔ Ascii p := by
  induction p with
  | nil => exact Iff.rfl
  | cons c p ih =>
    by_cases hc : Escaped c
    · rw [escape_escaped hc, ascii_cons, ascii_cons, ascii_cons, ascii_cons, ih, ← digits_ascii hc, and_assoc]
      exact and_iff_right (by decide)
    · rw [escape_copied hc, ascii_cons, ascii_cons, ih]

/-- An ASCII path has its escaped text for itself. -/
theorem escape_injective (hp : Ascii p) (h : dslinkStrEscape p' = dslinkStrEscape p) : p' = p := by
  have hp' : Ascii p' := ascii_escape.mp (h ▸ ascii_escape.mpr hp)
  rw [← (unescape_escape_eq_self p').mpr hp', h, (unescape_escape_eq_self p).mpr hp]

/-! ## Paths and their files -/

/-- The path comes back, its escaped text has no slash, and no other path has the same file name. -/
structure Reversible (p : CString) : Prop where
  back : dslinkStrUnescape (dslinkStrEscape p) = p
  plain : slash ∉ dslinkStrEscape p
  apart : ∀ p', 0 ∉ p' → p' ≠ p → dataName (dslinkStrEscape p') ≠ dataName (dslinkStrEscape p)

/-- The name is also in the buffer of `broker_data_node_update`, and no other path has the same one there. -/
def SavedApart (p : CString) : Prop := (saveFile p).isSome ∧ ∀ p', 0 ∉ p' → p' ≠ p → saveFile p' ≠ saveFile p

theorem reversible_iff (p : CString) : Reversible p ↔ Ascii p := by
  constructor
  · intro h
    exact (unescape_escape_eq_self p).mp h.back
  · intro hp
    exact ⟨(unescape_escape_eq_self p).mpr hp, slash_not_mem_escape p,
      fun p' _ hne he => hne (escape_injective hp (dataName_injective he))⟩

/-- Another byte whose escaped text differs from that of `c` in the last character only. -/
def sibling (c : UInt8) : UInt8 :=
  if ¬Escaped c then if c = 97 then 98 else 97
  else if c < 16 then if c = 1 then 2 else 1
  else if c < 32 then if c = 16 then 17 else 16
  else if c < 48 then if c = 32 then 33 else 32
  else if c = 58 then 61 else 58

theorem sibling_spec : c < 128 → sibling c ≠ c ∧ sibling c ≠ 0 ∧
    (dslinkStrEscape [sibling c]).dropLast = (dslinkStrEscape [c]).dropLast ∧
    (dslinkStrEscape [sibling c]).length = (dslinkStrEscape [c]).length :=
  forall_byte (P := fun c => c < 128 → sibling c ≠ c ∧ sibling c ≠ 0 ∧
    (dslinkStrEscape [sibling c]).dropLast = (dslinkStrEscape [c]).dropLast ∧
    (dslinkStrEscape [sibling c]).length = (dslinkStrEscape [c]).length) (by decide +kernel) c

/-- A name that loses its last character in the buffer is the name of another path, too. -/
theorem not_savedApart_cut (hp : Ascii p) (hzero : 0 ∉ p) (hlen : escapedLength p = 506) : ¬SavedApart p := by
  rintro ⟨-, hapart⟩
  rcases List.eq_nil_or_concat p with rfl | ⟨q, c, rfl⟩
  · exact absurd hlen (by decide)
  rw [List.concat_eq_append] at *
  obtain ⟨hne, hnz, hdrop, hlength⟩ := sibling_spec (hp c (by simp))
  have hescape : ∀ d : UInt8, dslinkStrEscape (q ++ [d]) = dslinkStrEscape q ++ dslinkStrEscape [d] :=
    fun d => escape_append q [d]
  have hlong : (dslinkStrEscape (q ++ [c])).length = 506 := (length_escape _).trans hlen
  have hpos : dslinkStrEscape [c] ≠ [] := by
    intro h
    rw [hescape, h, List.append_nil] at hlong
    have hbyte := length_escape [c]
    rw [h, List.length_nil, List.length_singleton] at hbyte
    omega
  have hcut : ∀ d : UInt8, (dslinkStrEscape [d]).length = (dslinkStrEscape [c]).length →
      saveFile (q ++ [d]) = some (cstr "data/" ++ (dslinkStrEscape q ++ (dslinkStrEscape [d]).dropLast)) := by
    intro d hd
    have hlong' : (dslinkStrEscape (q ++ [d])).length = 506 := by
      rw [hescape, List.length_append, hd, ← List.length_append, ← hescape]
      exact hlong
    have hdpos : dslinkStrEscape [d] ≠ [] := by
      intro h
      rw [h] at hd
      exact hpos (List.length_eq_zero_iff.mp hd.symm)
    rw [saveFile, formatName_eq_some, length_dataName, hlong']
    refine ⟨by decide, ?_⟩
    have hlast : (cstr "data/" ++ dslinkStrEscape (q ++ [d])).take 510 =
        (cstr "data/" ++ dslinkStrEscape (q ++ [d])).dropLast := by
      rw [List.dropLast_eq_take, List.length_append, hlong']
      rfl
    show (cstr "data/" ++ dslinkStrEscape (q ++ [d])).take 510 = _
    rw [hlast, hescape, List.dropLast_append_of_ne_nil (by simp [hdpos]), List.dropLast_append_of_ne_nil hdpos]
  apply hapart (q ++ [sibling c])
  · intro h
    rcases List.mem_append.mp h with h | h
    · exact hzero (List.mem_append_left _ h)
    · exact hnz (List.mem_singleton.mp h).symm
  · simp [hne]
  · rw [hcut _ hlength, hcut c rfl, hdrop]

/-- A name that fills the buffer is also that of a longer path. -/
theorem not_savedApart_full (hzero : 0 ∉ p) (hlen : escapedLength p = 505) : ¬SavedApart p := by
  rintro ⟨-, hapart⟩
  have hlong : (dslinkStrEscape p).length = 505 := (length_escape p).trans hlen
  have hsave : saveFile p = some (dataName (dslinkStrEscape p)) :=
    (formatName_self (by decide)).mpr (by rw [length_dataName, hlong])
  have hnext : dslinkStrEscape (p ++ [97]) = dslinkStrEscape p ++ [97] := escape_append p [97]
  apply hapart (p ++ [97])
  · simp [hzero]
  · simp
  · rw [hsave, saveFile, formatName_eq_some, hnext, dataName, ← List.append_assoc]
    have hname : (cstr "data/" ++ dslinkStrEscape p).length = 510 := by
      rw [List.length_append, hlong]
      rfl
    refine ⟨?_, List.take_left' hname⟩
    rw [List.length_append, hname]
    decide

theorem savedApart_iff (hp : Ascii p) (hzero : 0 ∉ p) : SavedApart p ↔ escapedLength p ≤ 504 := by
  have hlen : (dataName (dslinkStrEscape p)).length = escapedLength p + 5 := by
    rw [length_dataName, length_escape]
    rfl
  constructor
  · intro h
    obtain ⟨name, hname⟩ := Option.isSome_iff_exists.mp h.1
    have hlt := (formatName_eq_some.mp hname).1
    have hcut : escapedLength p ≠ 506 := fun he => not_savedApart_cut hp hzero he h
    have hfull : escapedLength p ≠ 505 := fun he => not_savedApart_full hzero he h
    omega
  · intro hle
    have hsave : saveFile p = some (dataName (dslinkStrEscape p)) := (formatName_self (by decide)).mpr (by omega)
    refine ⟨by rw [hsave]; rfl, fun p' _ hne he => hne ?_⟩
    -- a name that is cut has 510 characters, and this one has less
    obtain ⟨-, hcut⟩ := formatName_eq_some.mp (he.trans hsave)
    have hshort : (dataName (dslinkStrEscape p')).length ≤ 510 := by
      have hmin := congrArg List.length hcut
      rw [List.length_take, hlen] at hmin
      omega
    rw [List.take_of_length_le hshort] at hcut
    exact escape_injective hp (dataName_injective hcut)

/-- **Escaping.** It is reversible, without a slash and one to one exactly for ASCII paths. The names that
    `broker_data_node_update` makes of them stay apart where the buffer has room for all of the name. -/
theorem escape_exact (p : CString) (hzero : 0 ∉ p) : (Reversible p ↔ Ascii p) ∧
    (Reversible p ∧ SavedApart p ↔ Ascii p ∧ escapedLength p ≤ 504) := by
  refine ⟨reversible_iff p, ?_⟩
  rw [reversible_iff]
  exact and_congr_right (fun hp => savedApart_iff hp hzero)

theorem escape_exact_percent : (Reversible (cstr "/data/5%") ↔ Ascii (cstr "/data/5%")) ∧
    (Reversible (cstr "/data/5%") ∧ SavedApart (cstr "/data/5%") ↔
      Ascii (cstr "/data/5%") ∧ escapedLength (cstr "/data/5%") ≤ 504) :=
  escape_exact (cstr "/data/5%") (by decide)

/-- A byte from 128 on does not come back, and another one has the same escaped text. -/
theorem high_byte_lost : dslinkStrUnescape (dslinkStrEscape [47, 128]) ≠ [47, 128] ∧
    dataName (dslinkStrEscape [47, 144]) = dataName (dslinkStrEscape [47, 128]) ∧ ¬Reversible [47, 128] := by
  have hlost : dslinkStrUnescape (dslinkStrEscape [47, 128]) ≠ [47, 128] := by decide
  exact ⟨hlost, by decide, fun h => hlost h.back⟩

/-! ## The two passes -/

/-- The first loop: where `search` stops, and `lenoff`. -/
def escapeCount : CString → Nat → CString × Nat
  | [], lenoff => ([], lenoff)
  | c :: search, lenoff =>
    escapeCount search (if charVal c ≤ 44 ∨ c = 47 ∨ c = 58 ∨ c = 61 ∨ c = 37 then lenoff + 2 else lenoff)

/-- The size given to `dslink_malloc`. -/
def escapeSize (data : CString) : Nat :=
  let (search, lenoff) := escapeCount data 1
  data.length - search.length + lenoff

/-- The second loop and the terminator: the offsets in the block with the bytes written there. It tests `*search` for
a '%', where the first loop tested the character itself. -/
def escapeEmit (search : CString) : CString → Nat → List (Nat × UInt8)
  | [], pt => [(pt, 0)]
  | c :: data, pt =>
    if charVal c ≤ 44 ∨ c = 47 ∨ c = 58 ∨ c = 61 ∨ search.headD 0 = 37 then
      (pt, 37) :: (pt + 1, encodeBase16 (charVal c / 16)) :: (pt + 2, encodeBase16 (charVal c % 16)) ::
        escapeEmit search data (pt + 3)
    else (pt, c) :: escapeEmit search data (pt + 1)

/-- The writes of `dslink_str_escape`. -/
def escapeWrites (data : CString) : List (Nat × UInt8) := escapeEmit (escapeCount data 1).1 data 0

/-- A '%' comes before ',', so the test for it adds nothing. -/
theorem count_test : (charVal c ≤ 44 ∨ c = 47 ∨ c = 58 ∨ c = 61 ∨ c = 37) ↔ Escaped c := by
  constructor
  · rintro (h | h | h | h | rfl)
    · exact .inl h
    · exact .inr (.inl h)
    · exact .inr (.inr (.inl h))
    · exact .inr (.inr (.inr h))
    · exact .inl (by decide)
  · rintro (h | h | h | h)
    · exact .inl h
    · exact .inr (.inl h)
    · exact .inr (.inr (.inl h))
    · exact .inr (.inr (.inr (.inl h)))

/-- The second loop reads the terminator, where the first one has stopped. -/
theorem emit_test : (charVal c ≤ 44 ∨ c = 47 ∨ c = 58 ∨ c = 61 ∨ ([] : CString).headD 0 = 37) ↔ Escaped c := by
  have hno : ([] : CString).headD 0 ≠ 37 := by decide
  simp only [hno, or_false]
  exact Iff.rfl

theorem escapeCount_eq (data : CString) (lenoff : Nat) :
    escapeCount data lenoff = ([], lenoff + 2 * data.countP (fun c => Escaped c)) := by
  induction data generalizing lenoff with
  | nil => rfl
  | cons c data ih =>
    rw [escapeCount, ih]
    by_cases hc : Escaped c
    · rw [if_pos (count_test.mpr hc), List.countP_cons_of_pos (by simpa using hc)]
      congr 1
      omega
    · rw [if_neg (fun h => hc (count_test.mp h)), List.countP_cons_of_neg (by simpa using hc)]

/-- The second loop writes the escaped text and the terminator one byte after the other. -/
theorem escapeEmit_eq (data : CString) (pt : Nat) :
    escapeEmit [] data pt = List.zip (List.range' pt (escapedLength data + 1)) (dslinkStrEscape data ++ [0]) := by
  induction data generalizing pt with
  | nil => rfl
  | cons c data ih =>
    rw [escapeEmit]
    by_cases hc : Escaped c
    · have hlen : escapedLength (c :: data) + 1 = escapedLength data + 1 + 1 + 1 + 1 := by
        simp only [escapedLength, List.length_cons]
        rw [List.countP_cons_of_pos (by simpa using hc)]
        omega
      rw [if_pos (emit_test.mpr hc), ih, escape_escaped hc, hlen]
      rfl
    · have hlen : escapedLength (c :: data) + 1 = escapedLength data + 1 + 1 := by
        simp only [escapedLength, List.length_cons]
        rw [List.countP_cons_of_neg (by simpa using hc)]
        omega
      rw [if_neg (fun h => hc (emit_test.mp h)), ih, escape_copied hc, hlen]
      rfl

theorem escapeSize_eq (data : CString) : escapeSize data = escapedLength data + 1 := by
  rw [escapeSize, escapeCount_eq]
  simp only [escapedLength, List.length_nil]
  omega

/-- The second pass writes each byte of the block that the first one has counted, in their order and no others: the
escaped text with its terminator. The size is at most three times that of the text. -/
theorem escape_passes_agree (data : CString) : (escapeWrites data).length = escapeSize data ∧
    (escapeWrites data).map Prod.fst = List.range (escapeSize data) ∧
    (escapeWrites data).map Prod.snd = dslinkStrEscape data ++ [0] ∧ escapeSize data ≤ 3 * data.length + 1 := by
  have hlen : (dslinkStrEscape data ++ [0]).length = escapedLength data + 1 := by
    rw [List.length_append, length_escape]
    rfl
  have hrange : (List.range' 0 (escapedLength data + 1)).length = escapedLength data + 1 := List.length_range'
  rw [escapeWrites, escapeCount_eq, escapeEmit_eq, escapeSize_eq]
  refine ⟨?_, ?_, ?_, ?_⟩
  · rw [List.length_zip, hrange, hlen, Nat.min_self]
  · rw [List.map_fst_zip (by rw [hrange, hlen]), List.range_eq_range']
  · exact List.map_snd_zip (by rw [hrange, hlen])
  · have := data.countP_le_length (p := fun c => Escaped c)
    rw [escapedLength]
    omega

end DSLink
