import DSLink.Sdk.Base64Url

/-!
# `Sdk.Base64RoundTrip` — `dslink_base64_url_encode`, and decoding what it wrote

The encoder leaves the padding out. The decoder makes up for it by going on behind the text up to the next multiple of
four, and by taking the bytes that it has read too many off the length. So what it returns depends on what is there.

## Contents
- `encodeBytes`, `base64UrlEncode`.
- `Harmless`: a byte that the second pass takes for a character.
- `round_trip_exact`.
-/

namespace DSLink.Base64

/-! ## The encoder -/

/-- `base64_enc_map_`. -/
def base64EncMap : CString := cstr "ABCDEFGHIJKLMNOPQRSTUVWXYZabcdefghijklmnopqrstuvwxyz0123456789-_"

/-- `base64_enc_map_[v & 0x3F]`. -/
def encMap (v : Nat) : UInt8 := base64EncMap.getD (v % 64) 0

/-- The characters that are written, three bytes at a time. -/
def encodeBytes : List UInt8 → CString
  | c1 :: c2 :: c3 :: rest =>
    encMap (c1.toNat / 4) :: encMap (c1.toNat % 4 * 16 + c2.toNat / 16) ::
      encMap (c2.toNat % 16 * 4 + c3.toNat / 64) :: encMap c3.toNat :: encodeBytes rest
  | [c1, c2] =>
    [encMap (c1.toNat / 4), encMap (c1.toNat % 4 * 16 + c2.toNat / 16), encMap (c2.toNat % 16 * 4)]
  | [c1] => [encMap (c1.toNat / 4), encMap (c1.toNat % 4 * 16)]
  | [] => []

/-- What a call leaves: whether it returns 0, `*oLen`, and the bytes from `dst` on that were written. -/
structure Encoded where
  ok : Bool
  oLen : Nat
  written : List UInt8

/-- `dslink_base64_url_encode` into a buffer of `dLen` bytes. -/
def base64UrlEncode (dLen : Nat) (src : List UInt8) : Encoded :=
  if src.length = 0 then ⟨true, 0, []⟩
  else
    let n := src.length / 3 + if src.length % 3 ≠ 0 then 1 else 0
    if 4611686018427387903 < n then ⟨false, 18446744073709551615, []⟩
    else if dLen < n * 4 + 1 then ⟨false, n * 4 + 1, []⟩
    else ⟨true, (encodeBytes src).length, encodeBytes src ++ [0]⟩

/-- The text that is written. -/
def Encoded.text (encoded : Encoded) : CString := encoded.written.take encoded.oLen

variable {x full : List UInt8} {dLen : Nat}

theorem encode_ok (h : (base64UrlEncode dLen x).ok = true) :
    (base64UrlEncode dLen x).text = encodeBytes x ∧ x.length < 18446744073709551616 := by
  unfold base64UrlEncode at h ⊢
  by_cases hx : x.length = 0
  · obtain rfl := List.length_eq_zero_iff.mp hx
    exact ⟨rfl, by decide⟩
  · rw [if_neg hx] at h ⊢
    dsimp only at h ⊢
    split_ifs at h ⊢ with h3 hn hd hd
    · refine ⟨List.take_left' rfl, ?_⟩
      omega
    · refine ⟨List.take_left' rfl, ?_⟩
      omega

theorem length_encodeBytes (x : List UInt8) : (encodeBytes x).length = x.length / 3 * 4 +
    if x.length % 3 = 0 then 0 else x.length % 3 + 1 := by
  induction x using encodeBytes.induct with
  | case1 c1 c2 c3 rest ih =>
    rw [encodeBytes, List.length_cons, List.length_cons, List.length_cons, List.length_cons, ih]
    simp only [List.length_cons]
    split_ifs <;> omega
  | case2 c1 c2 => simp [encodeBytes]
  | case3 c1 => simp [encodeBytes]
  | case4 => rfl

/-- Whole groups are written one after the other. -/
theorem encodeBytes_append (h : full.length % 3 = 0) (rest : List UInt8) :
    encodeBytes (full ++ rest) = encodeBytes full ++ encodeBytes rest := by
  induction full using encodeBytes.induct with
  | case1 c1 c2 c3 full ih =>
    simp only [List.length_cons] at h
    simp only [List.cons_append, encodeBytes, ih (by omega)]
  | case2 c1 c2 => simp at h
  | case3 c1 => simp at h
  | case4 => rfl

/-! ## Characters -/

/-- What the decoder makes of a character. -/
theorem encMap_spec : ∀ v < 64, decMap (encMap v) = some v ∧ encMap v ≠ 13 ∧ encMap v ≠ 10 ∧ encMap v ≠ 32 ∧
    encMap v ≠ 46 := by
  decide +kernel

theorem decMap_high {b : UInt8} (h : ¬b < 128) : decMap b = none := by
  rw [UInt8.lt_iff_toNat_lt, Nat.not_lt] at h
  exact List.getElem?_eq_none h

/-- The table: an entry is that of the character it is encoded as, that of '=', or none of 128. -/
theorem decMap_ascii {b : UInt8} (h : b < 128) :
    ∃ v, decMap b = some v ∧ v ≠ 128 ∧ (v = 64 ↔ b = 61) ∧ (v < 64 → encMap v = b) := by
  have htable : ∀ n < 128, ∃ v ∈ base64DecMap[n]?, v ≠ 128 ∧ (v = 64 ↔ n = 61) ∧
      (v < 64 → encMap v = UInt8.ofNat n) := by decide +kernel
  obtain ⟨v, hv, hne, hpad, hchar⟩ := htable b.toNat (UInt8.lt_iff_toNat_lt.mp h)
  rw [UInt8.ofNat_toNat] at hchar
  exact ⟨v, hv, hne, hpad.trans (UInt8.toNat_inj (b := 61)), hchar⟩

theorem encMap_mod (v : Nat) : encMap (v % 64) = encMap v := by
  unfold encMap
  rw [Nat.mod_mod]

variable {rest t : List UInt8} {j n acc v : Nat} {out : List UInt8}

/-- The second pass over a character. -/
theorem secondPass_encMap (hv : v < 64) : secondPass (encMap v :: rest) j n acc out =
    if n + 1 = 4 then secondPass rest j 0 ((acc * 64 + v) % 4294967296) (out ++ emitted j ((acc * 64 + v) % 4294967296))
    else secondPass rest j (n + 1) ((acc * 64 + v) % 4294967296) out := by
  obtain ⟨hmap, h13, h10, h32, -⟩ := encMap_spec v hv
  have hskip : ¬(encMap v = 13 ∨ encMap v = 10 ∨ encMap v = 32) := by
    rintro (h | h | h)
    · exact h13 h
    · exact h10 h
    · exact h32 h
  have hpad : ¬v = 64 := by omega
  rw [secondPass, if_neg hskip, hmap]
  dsimp only
  rw [if_neg hpad, Nat.mod_eq_of_lt hv]

/-- The first pass over characters. -/
theorem firstPass_encode (x : List UInt8) (n : Nat) :
    firstPass (encodeBytes x) 0 n 0 = some (n + (encodeBytes x).length, 0) := by
  have hchar : ∀ v < 64, ∀ (rest : CString) (n : Nat),
      firstPass (encMap v :: rest) 0 n 0 = firstPass rest 0 (n + 1) 0 := by
    intro v hv rest n
    obtain ⟨hmap, h13, h10, h32, h46⟩ := encMap_spec v hv
    rw [firstPass, if_neg h32, if_neg (fun h => h13 h.1), if_neg h10, if_neg (by decide)]
    dsimp only
    rw [if_neg h46, if_neg (fun h => h46 h.1), hmap]
    dsimp only
    rw [if_neg (by omega), if_neg (by omega)]
  induction x using encodeBytes.induct generalizing n with
  | case1 c1 c2 c3 rest ih =>
    have h1 := c1.toNat_lt
    have h2 := c2.toNat_lt
    have h3 := c3.toNat_lt
    rw [encodeBytes, ← encMap_mod c3.toNat, hchar _ (by omega), hchar _ (by omega), hchar _ (by omega),
      hchar _ (by omega), ih]
    simp only [List.length_cons, Option.some.injEq, Prod.mk.injEq, and_true]
    omega
  | case2 c1 c2 =>
    have h1 := c1.toNat_lt
    have h2 := c2.toNat_lt
    rw [encodeBytes, hchar _ (by omega), hchar _ (by omega), hchar _ (by omega), firstPass]
    rfl
  | case3 c1 =>
    have _ := c1.toNat_lt
    rw [encodeBytes, hchar _ (by omega), hchar _ (by omega), firstPass]
    rfl
  | case4 => rfl

/-! ## Groups -/

/-- The bytes of a group, whatever was read before it. -/
theorem emitted_group (c1 : Nat) {a c2 c3 : Nat} (h2 : c2 < 256) (h3 : c3 < 256)
    (ha : a % 16777216 = c1 * 65536 + c2 * 256 + c3) :
    emitted 3 a = [UInt8.ofNat c1, UInt8.ofNat c2, UInt8.ofNat c3] := by
  have hb1 : a / 65536 % 256 = c1 := by omega
  have hb2 : a / 256 % 256 = c2 := by omega
  have hb3 : a % 256 = c3 := by omega
  rw [emitted, hb1, hb2, hb3]
  rfl

theorem secondPass_full (h : full.length % 3 = 0) (t : List UInt8) (acc : Nat) (out : List UInt8) : ∃ acc',
    secondPass (encodeBytes full ++ t) 3 0 acc out = secondPass t 3 0 acc' (out ++ full) := by
  induction full using encodeBytes.induct generalizing acc out with
  | case1 c1 c2 c3 full ih =>
    simp only [List.length_cons] at h
    have h1 := c1.toNat_lt
    have h2 := c2.toNat_lt
    have h3 := c3.toNat_lt
    rw [encodeBytes, ← encMap_mod c3.toNat]
    simp only [List.cons_append]
    rw [secondPass_encMap (by omega), if_neg (by decide), secondPass_encMap (by omega), if_neg (by decide),
      secondPass_encMap (by omega), if_neg (by decide), secondPass_encMap (by omega), if_pos rfl]
    rw [emitted_group c1.toNat h2 h3 (by omega)]
    obtain ⟨acc', hacc⟩ := ih (by omega) _ _
    refine ⟨acc', hacc.trans ?_⟩
    rw [List.append_assoc, UInt8.ofNat_toNat, UInt8.ofNat_toNat, UInt8.ofNat_toNat]
    rfl
  | case2 c1 c2 => simp at h
  | case3 c1 => simp at h
  | case4 => exact ⟨acc, by rw [List.append_nil]; rfl⟩

/-! ## Behind the text -/

/-- A byte that the second pass takes for a character other than the '=' of its table. -/
def Harmless (b : UInt8) : Prop := b < 128 ∧ b ≠ 13 ∧ b ≠ 10 ∧ b ≠ 32 ∧ b ≠ 61

instance (b : UInt8) : Decidable (Harmless b) := inferInstanceAs (Decidable (_ ∧ _))

/-- The bytes the second pass skips. -/
def skipped (b : UInt8) : Bool := b = 13 ∨ b = 10 ∨ b = 32

/-- Every byte is skipped, outside of the table, or has an entry of the table. -/
theorem harmless_iff (b : UInt8) : Harmless b ↔ skipped b = false ∧ ∃ v, decMap b = some v ∧ v ≠ 64 := by
  by_cases hb : b < 128
  · obtain ⟨v, hv, -, hpad, -⟩ := decMap_ascii hb
    have hentry : (∃ w, decMap b = some w ∧ w ≠ 64) ↔ b ≠ 61 := by simp [hv, hpad]
    rw [hentry]
    simp [Harmless, skipped, hb, and_assoc]
  · simp [Harmless, hb, decMap_high hb]

theorem secondPass_skipped {b : UInt8} (h : skipped b = true) :
    secondPass (b :: rest) j n acc out = secondPass rest j n acc out := by
  rw [secondPass, if_pos (by simpa [skipped] using h)]

theorem secondPass_mapped {b : UInt8} (h : skipped b = false) : secondPass (b :: rest) j n acc out =
    (decMap b).bind fun v =>
      let j := if v = 64 then (j + 4294967295) % 4294967296 else j
      let acc := (acc * 64 + v % 64) % 4294967296
      if n + 1 = 4 then secondPass rest j 0 acc (out ++ emitted j acc) else secondPass rest j (n + 1) acc out := by
  rw [secondPass, if_neg (by simpa [skipped] using h)]
  cases decMap b <;> rfl

theorem length_emitted (j x : Nat) : (emitted j x).length = min j 3 := by
  rw [emitted, List.length_take]
  rfl

/-- Less than a group is not written. -/
theorem secondPass_unfinished {w : List UInt8} (hn : n + t.length < 4) (h : secondPass t j n acc out = some w) :
    w = out := by
  induction t generalizing j n acc with
  | nil => exact (Option.some.inj h).symm
  | cons b t ih =>
    rw [List.length_cons] at hn
    by_cases hb : skipped b = true
    · rw [secondPass_skipped hb] at h
      exact ih (by omega) h
    · rw [secondPass_mapped (by simpa using hb)] at h
      obtain ⟨v, -, h⟩ := Option.bind_eq_some_iff.mp h
      dsimp only at h
      rw [if_neg (by omega)] at h
      exact ih (by omega) h

/-- The bytes behind the text that end a group: it is written whole only if all of them are harmless. -/
theorem secondPass_last {w : List UInt8} (hn : n + t.length ≤ 4) (hj : j ≤ 3) (ht : t.length ≤ j)
    (h : secondPass t j n acc out = some w) :
    out.length ≤ w.length ∧ w.length ≤ out.length + 3 ∧
      (w.length = out.length + 3 → j = 3 ∧ ∀ b ∈ t, Harmless b) := by
  induction t generalizing j n acc with
  | nil =>
    obtain rfl := Option.some.inj h
    exact ⟨Nat.le_refl _, Nat.le_add_right _ _, fun hlen => absurd hlen (by omega)⟩
  | cons b t ih =>
    rw [List.length_cons] at hn ht
    by_cases hb : skipped b = true
    · rw [secondPass_skipped hb] at h
      obtain rfl := secondPass_unfinished (by omega) h
      exact ⟨Nat.le_refl _, Nat.le_add_right _ _, fun hlen => absurd hlen (by omega)⟩
    · have hb' : skipped b = false := by simpa using hb
      rw [secondPass_mapped hb'] at h
      obtain ⟨v, hv, h⟩ := Option.bind_eq_some_iff.mp h
      obtain ⟨j', hj', hle, hpad⟩ : ∃ j', (if v = 64 then (j + 4294967295) % 4294967296 else j) = j' ∧
          t.length ≤ j' ∧ j' ≤ 3 ∧ (j' = 3 → j = 3 ∧ v ≠ 64) := by
        refine ⟨_, rfl, ?_, ?_⟩
        · split <;> omega
        · split <;> omega
      dsimp only at h
      rw [hj'] at h
      split at h
      · -- the group ends here
        rename_i hfour
        have hnil : t = [] := List.length_eq_zero_iff.mp (by omega)
        subst hnil
        obtain rfl := Option.some.inj h
        rw [List.length_append, length_emitted]
        refine ⟨by omega, by omega, fun hlen => ?_⟩
        obtain ⟨hthree, hne⟩ := hpad.2 (by omega)
        refine ⟨hthree, fun b' hmem => ?_⟩
        obtain rfl := List.mem_singleton.mp hmem
        exact (harmless_iff b').mpr ⟨hb', v, hv, hne⟩
      · obtain ⟨hge', hle', hfull⟩ := ih (by omega) hpad.1 hle h
        refine ⟨hge', hle', fun hlen => ?_⟩
        obtain ⟨hthree, hall⟩ := hfull hlen
        obtain ⟨hthree', hne⟩ := hpad.2 hthree
        refine ⟨hthree', fun b' hmem => ?_⟩
        rcases List.mem_cons.mp hmem with rfl | hmem
        · exact (harmless_iff b').mpr ⟨hb', v, hv, hne⟩
        · exact hall b' hmem

/-- A harmless byte counts as a character. -/
theorem secondPass_harmless {b : UInt8} (h : Harmless b) : ∃ v < 64, ∀ rest j n acc out,
    secondPass (b :: rest) j n acc out = if n + 1 = 4
      then secondPass rest j 0 ((acc * 64 + v) % 4294967296) (out ++ emitted j ((acc * 64 + v) % 4294967296))
      else secondPass rest j (n + 1) ((acc * 64 + v) % 4294967296) out := by
  obtain ⟨hb, v, hv, hne⟩ := (harmless_iff b).mp h
  refine ⟨v % 64, Nat.mod_lt _ (by decide), fun rest j n acc out => ?_⟩
  rw [secondPass_mapped hb, hv, Option.bind_some]
  dsimp only
  rw [if_neg hne]

/-! ## The round trip -/

/-- How many bytes behind the text the decoder reads. -/
def excess (x : List UInt8) : Nat := (3 - x.length % 3) % 3

theorem alignedLen_encode (x : List UInt8) :
    alignedLen (encodeBytes x).length = (encodeBytes x).length + excess x := by
  rw [length_encodeBytes, alignedLen, excess]
  split_ifs <;> omega

/-- The decoder on an encoded text with `after` behind it. -/
theorem decode_encode (hx : x ≠ []) (hd : (x.length + 2) / 3 * 3 ≤ dLen) (after : List UInt8) :
    base64UrlDecode dLen (encodeBytes x ++ after) (encodeBytes x).length =
      if after.length < excess x then none
      else (secondPass (encodeBytes x ++ after.take (excess x)) 3 0 0 []).bind fun w =>
        if dLen < w.length then none else some ⟨.ok, some (sizeSub w.length (excess x)), w⟩ := by
  have hpos : 0 < x.length := List.length_pos_iff.mpr hx
  have hlen : (encodeBytes x).length = x.length / 3 * 4 ∧ x.length % 3 = 0 ∨
      (encodeBytes x).length = x.length / 3 * 4 + (x.length % 3 + 1) ∧ x.length % 3 ≠ 0 := by
    rw [length_encodeBytes]
    by_cases hr : x.length % 3 = 0
    · exact .inl ⟨by rw [if_pos hr, Nat.add_zero], hr⟩
    · exact .inr ⟨by rw [if_neg hr], hr⟩
  have hne : ¬(encodeBytes x).length = 0 := by omega
  have hroom : ¬dLen < ((encodeBytes x).length * 6 + 7) / 8 - 0 := by omega
  have htake : (encodeBytes x ++ after).take (encodeBytes x).length = encodeBytes x := List.take_left' rfl
  have htake' : (encodeBytes x ++ after).take ((encodeBytes x).length + excess x) =
      encodeBytes x ++ after.take (excess x) := List.take_length_add_append _
  have hmem : ¬(encodeBytes x ++ after).length < (encodeBytes x).length := by
    rw [List.length_append]
    omega
  unfold base64UrlDecode
  rw [if_neg hmem, htake, firstPass_encode, Nat.zero_add]
  dsimp only
  rw [if_neg hne, if_neg hroom, alignedLen_encode, htake', List.length_append, Nat.add_sub_cancel_left]
  by_cases hshort : after.length < excess x
  · rw [if_pos hshort, if_pos (by omega)]
  · rw [if_neg hshort, if_neg (by omega)]
    rfl

/-- Whole groups, and what is left. -/
theorem exists_groups (x : List UInt8) :
    ∃ full rest, x = full ++ rest ∧ full.length % 3 = 0 ∧ rest.length < 3 := by
  refine ⟨x.take (x.length / 3 * 3), x.drop (x.length / 3 * 3), (List.take_append_drop _ _).symm, ?_, ?_⟩
  · rw [List.length_take]
    omega
  · rw [List.length_drop]
    omega

/-- What is left is written with the bytes behind the text, if they are harmless. -/
theorem secondPass_rest (hrest : rest.length < 3) (ht : t.length = (3 - rest.length) % 3) (hall : ∀ b ∈ t, Harmless b)
    (acc : Nat) (out : List UInt8) : ∃ more, more.length = t.length ∧
      secondPass (encodeBytes rest ++ t) 3 0 acc out = some (out ++ (rest ++ more)) := by
  match rest, t with
  | [], [] => exact ⟨[], rfl, by simp [encodeBytes, secondPass]⟩
  | [c], [b1, b2] =>
    -- two characters, and two bytes behind the text
    have hc := c.toNat_lt
    obtain ⟨v1, hv1, h1⟩ := secondPass_harmless (hall b1 (by simp))
    obtain ⟨v2, hv2, h2⟩ := secondPass_harmless (hall b2 (by simp))
    have hgroup : ∀ a, a % 4096 = c.toNat * 16 →
        emitted 3 (((a * 64 + v1) % 4294967296 * 64 + v2) % 4294967296) =
          [UInt8.ofNat c.toNat, UInt8.ofNat (v1 / 4), UInt8.ofNat (v1 % 4 * 64 + v2)] := by
      intro a ha
      exact emitted_group c.toNat (by omega) (by omega) (by omega)
    refine ⟨[UInt8.ofNat (v1 / 4), UInt8.ofNat (v1 % 4 * 64 + v2)], rfl, ?_⟩
    rw [encodeBytes]
    simp only [List.cons_append, List.nil_append]
    rw [secondPass_encMap (by omega), if_neg (by decide), secondPass_encMap (by omega), if_neg (by decide), h1,
      if_neg (by decide), h2, if_pos rfl, hgroup _ (by omega), UInt8.ofNat_toNat, secondPass]
  | [c1, c2], [b] =>
    -- three characters, and one byte behind the text
    have hc1 := c1.toNat_lt
    have hc2 := c2.toNat_lt
    obtain ⟨v, hv, h⟩ := secondPass_harmless (hall b (by simp))
    have hgroup : ∀ a, a % 262144 = (c1.toNat * 256 + c2.toNat) * 4 →
        emitted 3 ((a * 64 + v) % 4294967296) =
          [UInt8.ofNat c1.toNat, UInt8.ofNat c2.toNat, UInt8.ofNat v] := by
      intro a ha
      exact emitted_group c1.toNat hc2 (by omega) (by omega)
    refine ⟨[UInt8.ofNat v], rfl, ?_⟩
    rw [encodeBytes]
    simp only [List.cons_append, List.nil_append]
    rw [secondPass_encMap (by omega), if_neg (by decide), secondPass_encMap (by omega), if_neg (by decide),
      secondPass_encMap (by omega), if_neg (by decide), h, if_pos rfl, hgroup _ (by omega), UInt8.ofNat_toNat,
      UInt8.ofNat_toNat, secondPass]

/-- The decoder gives the bytes back that were encoded. -/
def DecodesTo (dLen : Nat) (text after x : List UInt8) : Prop :=
  ∃ d, base64UrlDecode dLen (text ++ after) text.length = some d ∧ d.code = .ok ∧ d.oLen = some x.length ∧
    d.written.take x.length = x

theorem decodesTo_of_harmless (hd : (x.length + 2) / 3 * 3 ≤ dLen) {after : List UInt8}
    (hlen : excess x ≤ after.length) (hall : ∀ b ∈ after.take (excess x), Harmless b)
    (hx : x.length < 18446744073709551616) :
    DecodesTo dLen (encodeBytes x) after x := by
  by_cases hnil : x = []
  · subst hnil
    exact ⟨⟨.ok, some 0, []⟩, rfl, rfl, rfl, rfl⟩
  · obtain ⟨full, rest, rfl, hfull, hrest⟩ := exists_groups x
    obtain ⟨acc, hacc⟩ := secondPass_full hfull (encodeBytes rest ++ after.take (excess (full ++ rest))) 0 []
    have hexcess : excess (full ++ rest) = (3 - rest.length) % 3 := by
      rw [excess, List.length_append]
      omega
    have ht : (after.take (excess (full ++ rest))).length = (3 - rest.length) % 3 := by
      rw [List.length_take, ← hexcess]
      omega
    obtain ⟨more, hmore, hw⟩ := secondPass_rest hrest ht hall acc ([] ++ full)
    have hpass : secondPass (encodeBytes (full ++ rest) ++ after.take (excess (full ++ rest))) 3 0 0 [] =
        some (full ++ rest ++ more) := by
      rw [encodeBytes_append hfull, List.append_assoc, hacc, hw, List.nil_append, List.append_assoc]
    have hmoreLen : more.length = excess (full ++ rest) := by rw [hmore, ht, hexcess]
    have hwritten : (full ++ rest ++ more).length = (full ++ rest).length + excess (full ++ rest) := by
      rw [← hmoreLen]
      exact List.length_append
    have hroom : ¬dLen < (full ++ rest ++ more).length := by
      rw [hwritten, excess]
      omega
    have hsize : sizeSub (full ++ rest ++ more).length (excess (full ++ rest)) = (full ++ rest).length := by
      rw [hwritten, sizeSub]
      omega
    refine ⟨⟨.ok, some (full ++ rest).length, full ++ rest ++ more⟩, ?_, rfl, rfl, List.take_left' rfl⟩
    rw [decode_encode hnil hd after, if_neg (Nat.not_lt.mpr hlen), hpass, Option.bind_some, if_neg hroom, hsize]

/-- What is left of the bytes is read, and not yet written. -/
theorem secondPass_started (hrest : rest.length < 3) (hne : rest ≠ []) (t : List UInt8) (acc : Nat)
    (out : List UInt8) : ∃ acc', secondPass (encodeBytes rest ++ t) 3 0 acc out =
      secondPass t 3 (rest.length + 1) acc' out := by
  match rest with
  | [] => exact absurd rfl hne
  | [c] =>
    have hc := c.toNat_lt
    rw [encodeBytes]
    simp only [List.cons_append, List.nil_append]
    rw [secondPass_encMap (by omega), if_neg (by decide), secondPass_encMap (by omega), if_neg (by decide)]
    exact ⟨_, rfl⟩
  | [c1, c2] =>
    have hc1 := c1.toNat_lt
    have hc2 := c2.toNat_lt
    rw [encodeBytes]
    simp only [List.cons_append, List.nil_append]
    rw [secondPass_encMap (by omega), if_neg (by decide), secondPass_encMap (by omega), if_neg (by decide),
      secondPass_encMap (by omega), if_neg (by decide)]
    exact ⟨_, rfl⟩

theorem harmless_of_decodesTo (hd : (x.length + 2) / 3 * 3 ≤ dLen) {after : List UInt8}
    (hx : x.length < 18446744073709551616) (h : DecodesTo dLen (encodeBytes x) after x) :
    excess x ≤ after.length ∧ ∀ b ∈ after.take (excess x), Harmless b := by
  by_cases hnil : x = []
  · subst hnil
    exact ⟨Nat.zero_le _, fun b hb => by cases hb⟩
  · obtain ⟨d, hdec, -, holen, -⟩ := h
    rw [decode_encode hnil hd after] at hdec
    obtain ⟨hlen, hdec⟩ := Option.ite_none_left_eq_some.mp hdec
    obtain ⟨w, hw, hdec⟩ := Option.bind_eq_some_iff.mp hdec
    obtain ⟨-, hdec⟩ := Option.ite_none_left_eq_some.mp hdec
    obtain rfl := Option.some.inj hdec
    have hsize : sizeSub w.length (excess x) = x.length := Option.some.inj holen
    refine ⟨Nat.le_of_not_lt hlen, ?_⟩
    obtain ⟨full, rest, rfl, hfull, hrest⟩ := exists_groups x
    have hexcess : excess (full ++ rest) = (3 - rest.length) % 3 := by
      rw [excess, List.length_append]
      omega
    by_cases hne : rest = []
    · subst hne
      have hzero : excess (full ++ []) = 0 := hexcess
      rw [hzero]
      intro b hb
      cases hb
    · have hpos : 0 < rest.length := List.length_pos_iff.mpr hne
      have ht : (after.take (excess (full ++ rest))).length = 3 - rest.length := by
        rw [List.length_take]
        omega
      obtain ⟨acc, hacc⟩ := secondPass_full hfull (encodeBytes rest ++ after.take (excess (full ++ rest))) 0 []
      obtain ⟨acc', hacc'⟩ := secondPass_started hrest hne (after.take (excess (full ++ rest))) acc ([] ++ full)
      rw [encodeBytes_append hfull, List.append_assoc, hacc, hacc', List.nil_append] at hw
      obtain ⟨hge, hle, hall⟩ := secondPass_last (by omega) (by omega) (by omega) hw
      -- a shorter last group would give a shorter length, or one beyond all bounds
      rw [List.length_append] at hsize hx
      unfold sizeSub at hsize
      exact (hall (by omega)).2

/-- What the encoder wrote is decoded to the bytes it was made of, into a buffer with room for whole groups, exactly
    when the bytes up to the next multiple of four behind the text are ASCII, and none of them is a line break, a space
    or an '='. -/
theorem round_trip_exact (x after : List UInt8) (eLen dLen : Nat) (hok : (base64UrlEncode eLen x).ok = true)
    (hd : (x.length + 2) / 3 * 3 ≤ dLen) :
    DecodesTo dLen (base64UrlEncode eLen x).text after x ↔
      (3 - x.length % 3) % 3 ≤ after.length ∧ ∀ b ∈ after.take ((3 - x.length % 3) % 3), Harmless b := by
  obtain ⟨htext, hx⟩ := encode_ok hok
  rw [htext]
  constructor
  · exact harmless_of_decodesTo hd hx
  · rintro ⟨hlen, hall⟩
    exact decodesTo_of_harmless hd hlen hall hx

theorem round_trip_exact_zero : DecodesTo 3 (base64UrlEncode 5 [77, 97]).text [0] [77, 97] :=
  (round_trip_exact [77, 97] [0] 5 3 rfl (by decide)).mpr ⟨by decide, by decide +kernel⟩

/-- One byte, with the terminator and a line break behind its text: a length beyond all bounds. -/
theorem line_break_behind : (base64UrlEncode 5 [0]).ok = true ∧ ([0].length + 2) / 3 * 3 ≤ 3 ∧
    ¬ DecodesTo 3 (base64UrlEncode 5 [0]).text [0, 10] [0] := by
  refine ⟨rfl, by decide, ?_⟩
  rintro ⟨d, hdec, -, hlen, -⟩
  have hrun : base64UrlDecode 3 ((base64UrlEncode 5 [0]).text ++ [0, 10]) (base64UrlEncode 5 [0]).text.length =
      some ⟨.ok, some 18446744073709551614, []⟩ := by
    decide
  rw [hrun] at hdec
  obtain rfl := Option.some.inj hdec
  exact absurd (Option.some.inj hlen) (by decide)

end DSLink.Base64
