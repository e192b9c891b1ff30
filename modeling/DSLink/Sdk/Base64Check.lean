import DSLink.Sdk.Base64RoundTrip
import Mathlib.Data.List.Basic

/-!
# `Sdk.Base64Check` — what `dslink_base64_url_decode` takes for base64url

The first pass refuses a byte above 127, a third '.', a space inside of a line, and a character of the alphabet behind
a '.'. The test that is to refuse all other bytes compares with 128, while the table marks them with 127, so every
ASCII byte passes. The '=' of the table is such a byte for the first pass.

## Contents
- `WellFormed`: base64url, for a choice of padding characters.
- `Accepted`, `firstPass_isSome`: the first pass.
- `rejects_exact`.
-/

namespace DSLink.Base64

/-! ## Base64url -/

/-- A character of the alphabet. -/
def alphabet (b : UInt8) : Bool := base64EncMap.contains b

/-- A line ends here: with the text, or with a line break. -/
def lineEnd (t : CString) : Bool := t = [] ∨ t.head? = some 10 ∨ t.head? = some 13 ∧ t.tail.head? = some 10

/-- Spaces stand at the end of a line only. -/
def SpacesTrail (s : CString) : Prop := ∀ t, t <:+ s → t.head? = some 32 → lineEnd (t.dropWhile (· = 32)) = true

/-- A carriage return is half of a line break. -/
def BreaksWhole (s : CString) : Prop := ∀ t, t <:+ s → t.head? = some 13 → t.tail.head? = some 10

/-- There are two padding characters at most, and no character of the alphabet behind one of them. -/
def Closed (pads : List UInt8) (s : CString) : Prop :=
  (s.filter (· ∈ pads)).length ≤ 2 ∧ s.Pairwise fun a b => a ∈ pads → alphabet b = false

/-- A byte that may stand in base64url. -/
def Allowed (pads : List UInt8) (b : UInt8) : Prop := alphabet b = true ∨ b ∈ pads ∨ b = 10 ∨ b = 13 ∨ b = 32

/-- Characters of the alphabet, line breaks, spaces at the end of a line, and padding at the end. -/
structure WellFormed (pads : List UInt8) (s : CString) : Prop where
  bytes : ∀ b ∈ s, Allowed pads b
  breaks : BreaksWhole s
  spaces : SpacesTrail s
  padding : Closed pads s

/-! ## The first pass -/

/-- What the first pass accepts. -/
structure Accepted (s : CString) : Prop where
  ascii : ∀ b ∈ s, b < 128
  spaces : SpacesTrail s
  padding : Closed [46] s

variable {s t rest : CString} {b c : UInt8} {n j x : Nat}

theorem spacesTrail_cons :
    SpacesTrail (c :: s) ↔ (c = 32 → lineEnd (s.dropWhile (· = 32)) = true) ∧ SpacesTrail s := by
  constructor
  · intro h
    refine ⟨fun hc => ?_, fun t ht => h t (ht.trans (List.suffix_cons c s))⟩
    have hall := h (c :: s) List.suffix_rfl (by rw [hc]; rfl)
    rwa [List.dropWhile_cons_of_pos (by simpa using hc)] at hall
  · rintro ⟨hc, hs⟩ t ht hhead
    rcases List.suffix_cons_iff.mp ht with rfl | ht
    · have hspace : c = 32 := Option.some.inj hhead
      rw [List.dropWhile_cons_of_pos (by simpa using hspace)]
      exact hc hspace
    · exact hs t ht hhead

theorem closed_cons {pads : List UInt8} : Closed pads (c :: s) ↔
    (if c ∈ pads then (s.filter (· ∈ pads)).length ≤ 1 ∧ ∀ b ∈ s, alphabet b = false else True) ∧ Closed pads s := by
  unfold Closed
  rw [List.pairwise_cons]
  by_cases hc : c ∈ pads
  · rw [List.filter_cons_of_pos (by simpa using hc), if_pos hc, List.length_cons]
    constructor
    · rintro ⟨hlen, hall, hs⟩
      exact ⟨⟨by omega, fun b hb => hall b hb hc⟩, by omega, hs⟩
    · rintro ⟨⟨hlen, hall⟩, -, hs⟩
      exact ⟨by omega, fun b hb _ => hall b hb, hs⟩
  · rw [List.filter_cons_of_neg (by simpa using hc), if_neg hc, true_and]
    constructor
    · rintro ⟨hlen, -, hs⟩
      exact ⟨hlen, hs⟩
    · rintro ⟨hlen, hs⟩
      exact ⟨hlen, fun b _ h => absurd h hc, hs⟩

theorem length_base64EncMap : base64EncMap.length = 64 := by decide +kernel

theorem alphabet_encMap (v : Nat) : alphabet (encMap v) = true := by
  have hlt : v % 64 < base64EncMap.length := by
    rw [length_base64EncMap]
    exact Nat.mod_lt _ (by decide)
  rw [alphabet, List.contains_iff_mem, encMap, List.getD_eq_getElem?_getD, List.getElem?_eq_getElem hlt]
  exact List.getElem_mem hlt

theorem exists_encMap {b : UInt8} (h : alphabet b = true) : ∃ v < 64, encMap v = b := by
  obtain ⟨v, hv, rfl⟩ := List.getElem_of_mem (List.contains_iff_mem.mp h)
  have hlt : v < 64 := length_base64EncMap ▸ hv
  refine ⟨v, hlt, ?_⟩
  rw [encMap, Nat.mod_eq_of_lt hlt, List.getD_eq_getElem?_getD, List.getElem?_eq_getElem hv]
  rfl

/-- The table: what is above 127 is not in it, its entries below 64 are the alphabet, and none is 128. -/
theorem decMap_spec (b : UInt8) : (∃ v, decMap b = some v ∧ v ≠ 128 ∧ (v < 64 ↔ alphabet b = true) ∧ b < 128) ∨
    decMap b = none ∧ 128 ≤ b := by
  by_cases hb : b < 128
  · obtain ⟨v, hv, hne, -, hchar⟩ := decMap_ascii hb
    refine .inl ⟨v, hv, hne, ⟨fun hlt => ?_, fun h => ?_⟩, hb⟩
    · rw [← hchar hlt]
      exact alphabet_encMap v
    · -- a character of the alphabet is that of one entry
      obtain ⟨w, hw, rfl⟩ := exists_encMap h
      rw [(encMap_spec w hw).1] at hv
      exact Option.some.inj hv ▸ hw
  · exact .inr ⟨decMap_high hb, UInt8.not_lt.mp hb⟩

/-- The first pass in the middle of a text: `x` spaces were skipped just before, and `j` dots have been seen. -/
structure AcceptedFrom (x j : Nat) (s : CString) : Prop where
  accepted : Accepted s
  line : x ≠ 0 → lineEnd (s.dropWhile (· = 32)) = true
  dots : j + (s.filter (· ∈ [46])).length ≤ 2
  closed : j ≠ 0 → ∀ b ∈ s, alphabet b = false

theorem acceptedFrom_line : AcceptedFrom x j s ↔
    (x ≠ 0 → lineEnd (s.dropWhile (· = 32)) = true) ∧ AcceptedFrom 0 j s :=
  ⟨fun h => ⟨h.line, h.accepted, fun h0 => absurd rfl h0, h.dots, h.closed⟩,
    fun h => ⟨h.2.accepted, h.1, h.2.dots, h.2.closed⟩⟩

theorem acceptedFrom_cons : AcceptedFrom x j (c :: s) ↔ c < 128 ∧
    (x ≠ 0 → lineEnd ((c :: s).dropWhile (· = 32)) = true) ∧ (c = 32 → lineEnd (s.dropWhile (· = 32)) = true) ∧
    (j ≠ 0 → alphabet c = false) ∧ AcceptedFrom 0 (if c = 46 then j + 1 else j) s := by
  have hcount : j + ((c :: s).filter (· ∈ [46])).length =
      (if c = 46 then j + 1 else j) + (s.filter (· ∈ [46])).length := by
    by_cases hc : c = 46
    · rw [if_pos hc, List.filter_cons_of_pos (by simpa using hc), List.length_cons]
      omega
    · rw [if_neg hc, List.filter_cons_of_neg (by simpa using hc)]
  constructor
  · rintro ⟨⟨hascii, hspaces, hpadding⟩, hline, hdots, hclosed⟩
    obtain ⟨hspace, hspaces⟩ := spacesTrail_cons.mp hspaces
    obtain ⟨hdot, hpadding⟩ := closed_cons.mp hpadding
    refine ⟨hascii c List.mem_cons_self, hline, hspace, fun hj => hclosed hj c List.mem_cons_self, ?_⟩
    refine ⟨⟨fun b hb => hascii b (List.mem_cons_of_mem _ hb), hspaces, hpadding⟩, fun h0 => absurd rfl h0, ?_, ?_⟩
    · rwa [← hcount]
    · intro hj b hb
      by_cases hc : c = 46
      · rw [if_pos (by simpa using hc)] at hdot
        exact hdot.2 b hb
      · rw [if_neg hc] at hj
        exact hclosed hj b (List.mem_cons_of_mem _ hb)
  · rintro ⟨hc, hline, hspace, hj, ⟨hascii, hspaces, hpadding⟩, -, hdots, hclosed⟩
    refine ⟨⟨?_, spacesTrail_cons.mpr ⟨hspace, hspaces⟩, closed_cons.mpr ⟨?_, hpadding⟩⟩, hline, by rwa [hcount], ?_⟩
    · intro b hb
      rcases List.mem_cons.mp hb with rfl | hb
      · exact hc
      · exact hascii b hb
    · split
      · rename_i hdot
        rw [if_pos (by simpa using hdot)] at hdots hclosed
        exact ⟨by omega, hclosed (by omega)⟩
      · trivial
    · intro hj' b hb
      rcases List.mem_cons.mp hb with rfl | hb
      · exact hj hj'
      · exact hclosed (by split <;> omega) b hb

/-- The first pass from the middle of a text on. -/
theorem firstPass_isSome_from (hj : j ≤ 2) : (firstPass s x n j).isSome = true ↔ AcceptedFrom x j s := by
  induction s generalizing x n j with
  | nil =>
    refine iff_of_true rfl ⟨⟨?_, ?_, Nat.zero_le _, List.Pairwise.nil⟩, fun _ => rfl, hj, ?_⟩
    · exact fun b hb => absurd hb List.not_mem_nil
    · intro t ht hhead
      rw [List.suffix_nil.mp ht] at hhead
      cases hhead
    · exact fun _ b hb => absurd hb List.not_mem_nil
  | cons c s ih =>
    rw [firstPass, acceptedFrom_cons]
    by_cases hspace : c = 32
    · -- a space: the line has to end behind the spaces
      subst hspace
      rw [if_pos rfl, ih hj, acceptedFrom_line, if_neg (by decide), List.dropWhile_cons_of_pos (by decide)]
      constructor
      · rintro ⟨hline, h⟩
        exact ⟨by decide, fun _ => hline (Nat.succ_ne_zero x), fun _ => hline (Nat.succ_ne_zero x),
          fun _ => by decide, h⟩
      · rintro ⟨-, -, hline, -, h⟩
        exact ⟨fun _ => hline rfl, h⟩
    · rw [if_neg hspace, List.dropWhile_cons_of_neg (by simpa using hspace)]
      -- the two line breaks are skipped in the same way
      have hbreak : ∀ c', c = c' → c' ≠ 46 → c' < 128 → alphabet c' = false → lineEnd (c :: s) = true →
          ((firstPass s 0 n j).isSome = true ↔ c < 128 ∧ (x ≠ 0 → lineEnd (c :: s) = true) ∧
            (c = 32 → lineEnd (s.dropWhile (· = 32)) = true) ∧ (j ≠ 0 → alphabet c = false) ∧
            AcceptedFrom 0 (if c = 46 then j + 1 else j) s) := by
        rintro c' rfl hne hlt halpha hline
        rw [if_neg hne, ih hj]
        exact ⟨fun h => ⟨hlt, fun _ => hline, fun h0 => absurd h0 hspace, fun _ => halpha, h⟩, fun h => h.2.2.2.2⟩
      by_cases hcrlf : c = 13 ∧ s.head? = some 10
      · rw [if_pos hcrlf]
        refine hbreak 13 hcrlf.1 (by decide) (by decide) (by decide) ?_
        simp [lineEnd, hcrlf]
      · rw [if_neg hcrlf]
        by_cases hlf : c = 10
        · rw [if_pos hlf]
          refine hbreak 10 hlf (by decide) (by decide) (by decide) ?_
          simp [lineEnd, hlf]
        · rw [if_neg hlf]
          have hno : lineEnd (c :: s) = false := by
            simp only [lineEnd, decide_eq_false_iff_not]
            rintro (h | h | ⟨h, h'⟩)
            · cases h
            · exact hlf (Option.some.inj h)
            · exact hcrlf ⟨Option.some.inj h, h'⟩
          by_cases hx : x ≠ 0
          · -- a character behind a space
            rw [if_pos hx, hno]
            exact iff_of_false (by decide) (fun h => absurd (h.2.1 hx) (by decide))
          · rw [if_neg hx]
            have hline : x ≠ 0 → lineEnd (c :: s) = true := fun h => absurd h hx
            have hspace' : c = 32 → lineEnd (s.dropWhile (· = 32)) = true := fun h => absurd h hspace
            dsimp only
            rcases decMap_spec c with ⟨v, hv, h128, halpha, hlt⟩ | ⟨hnone, hge⟩
            · rw [hv]
              dsimp only
              by_cases hdot : c = 46
              · -- a dot, which may be the third one
                have hno64 : ¬v < 64 := by
                  rw [halpha, hdot]
                  decide
                rw [if_pos hdot]
                by_cases hthird : 2 < j + 1
                · rw [if_pos ⟨hdot, hthird⟩]
                  refine iff_of_false (by decide) (fun h => ?_)
                  have hdots := h.2.2.2.2.dots
                  omega
                · rw [if_neg (fun h => hthird h.2), if_neg h128, if_neg (fun h => hno64 h.1), ih (by omega)]
                  exact ⟨fun h => ⟨hlt, hline, hspace', fun _ => by rw [hdot]; decide, h⟩, fun h => h.2.2.2.2⟩
              · -- another character, of the alphabet or not
                rw [if_neg hdot, if_neg (fun h => hdot h.1), if_neg h128]
                by_cases hlate : v < 64 ∧ j ≠ 0
                · rw [if_pos hlate]
                  refine iff_of_false (by decide) (fun h => ?_)
                  have hfalse := h.2.2.2.1 hlate.2
                  rw [halpha.mp hlate.1] at hfalse
                  cases hfalse
                · rw [if_neg hlate, ih hj]
                  refine ⟨fun h => ⟨hlt, hline, hspace', fun hj0 => ?_, h⟩, fun h => h.2.2.2.2⟩
                  by_contra hno'
                  exact hlate ⟨halpha.mpr (by simpa using hno'), hj0⟩
            · -- a byte that is not in the table
              have hdot : c ≠ 46 := by
                rintro rfl
                exact absurd hge (by decide)
              rw [if_neg (fun h => hdot h.1), hnone]
              refine iff_of_false Bool.false_ne_true (fun h => ?_)
              have hlt := UInt8.lt_iff_toNat_lt.mp h.1
              have hle := UInt8.le_iff_toNat_le.mp hge
              omega

/-- The first pass accepts. -/
theorem firstPass_isSome : (firstPass s 0 0 0).isSome = true ↔ Accepted s := by
  rw [firstPass_isSome_from (Nat.zero_le _)]
  refine ⟨fun h => h.accepted, fun h => ⟨h, fun h0 => absurd rfl h0, ?_, fun h0 => absurd rfl h0⟩⟩
  rw [Nat.zero_add]
  exact h.padding.1

/-! ## The decoder -/

/-- The second pass has an entry of the table for every ASCII byte. -/
theorem secondPass_isSome {acc : Nat} {out : List UInt8} (h : ∀ b ∈ s, b < 128) :
    (secondPass s j n acc out).isSome = true := by
  induction s generalizing j n acc out with
  | nil => rfl
  | cons c s ih =>
    have hs : ∀ b ∈ s, b < 128 := fun b hb => h b (List.mem_cons_of_mem _ hb)
    by_cases hskip : skipped c = true
    · rw [secondPass_skipped hskip]
      exact ih hs
    · rw [secondPass_mapped (by simpa using hskip)]
      rcases decMap_spec c with ⟨v, hv, -⟩ | ⟨-, hge⟩
      · rw [hv, Option.bind_some]
        dsimp only
        split
        · exact ih hs
        · exact ih hs
      · have hlt := UInt8.lt_iff_toNat_lt.mp (h c List.mem_cons_self)
        have hle := UInt8.le_iff_toNat_le.mp hge
        omega

/-- What the first pass accepts is decoded, with zeros behind it and enough room. -/
theorem decode_accepted (h : Accepted s) :
    ∃ dLen d, base64UrlDecode dLen (s ++ List.replicate 4 0) s.length = some d ∧ d.code = .ok := by
  obtain ⟨⟨n, j⟩, hfirst⟩ := Option.isSome_iff_exists.mp (firstPass_isSome.mpr h)
  obtain ⟨hle, hbound⟩ := alignedLen_bounds s.length
  have htake : (s ++ List.replicate 4 (0 : UInt8)).take s.length = s := List.take_left' rfl
  have hlen : (s ++ List.replicate 4 (0 : UInt8)).length = s.length + 4 := by simp
  have hascii : ∀ b ∈ (s ++ List.replicate 4 (0 : UInt8)).take (alignedLen s.length), b < 128 := by
    intro b hb
    rcases List.mem_append.mp (List.mem_of_mem_take hb) with hb | hb
    · exact h.ascii b hb
    · rw [List.eq_of_mem_replicate hb]
      decide
  have hsome : (secondPass ((s ++ List.replicate 4 (0 : UInt8)).take (alignedLen s.length)) 3 0 0 []).isSome = true :=
    secondPass_isSome hascii
  obtain ⟨w, hw⟩ := Option.isSome_iff_exists.mp hsome
  refine ⟨(n * 6 + 7) / 8 + w.length, ?_⟩
  unfold base64UrlDecode
  rw [hlen, if_neg (by omega), htake, hfirst]
  dsimp only
  by_cases hn : n = 0
  · rw [if_pos hn]
    exact ⟨_, rfl, rfl⟩
  · rw [if_neg hn, if_neg (by omega), if_neg (by omega), hw]
    refine ⟨_, if_neg (by omega), rfl⟩

/-- Every call on the text that returns 0 has been given base64url, and every call on a text with a byte that may not
    stand in base64url returns `MBEDTLS_ERR_BASE64_INVALID_CHARACTER`. -/
def RejectsRight (pads : List UInt8) (s : CString) : Prop :=
  ∀ dLen after d, base64UrlDecode dLen (s ++ after) s.length = some d →
    (d.code = .ok → WellFormed pads s) ∧ ((∃ b ∈ s, ¬ Allowed pads b) → d.code = .invalidCharacter)

theorem rejectsRight_iff (pads : List UInt8) (s : CString) : RejectsRight pads s ↔
    ¬ Accepted s ∨ (∀ b ∈ s, Allowed pads b) ∧ BreaksWhole s ∧ Closed pads s := by
  constructor
  · intro hall
    by_cases h : Accepted s
    · -- with enough room the decoder returns 0
      obtain ⟨dLen, d, hd, hok⟩ := decode_accepted h
      have hwf := (hall dLen _ d hd).1 hok
      exact .inr ⟨hwf.bytes, hwf.breaks, hwf.padding⟩
    · exact .inl h
  · intro hcond dLen after d hd
    have htake : (s ++ after).take s.length = s := List.take_left' rfl
    have hmem : ¬(s ++ after).length < s.length := by
      rw [List.length_append]
      omega
    unfold base64UrlDecode at hd
    rw [if_neg hmem, htake] at hd
    cases hfirst : firstPass s 0 0 0 with
    | none =>
      rw [hfirst] at hd
      obtain rfl := Option.some.inj hd
      exact ⟨fun hok => (by cases hok), fun _ => rfl⟩
    | some counts =>
      have haccepted : Accepted s := firstPass_isSome.mp (by rw [hfirst]; rfl)
      rcases hcond with hno | ⟨hbytes, hbreaks, hclosed⟩
      · exact absurd haccepted hno
      · refine ⟨fun _ => ⟨hbytes, hbreaks, haccepted.spaces, hclosed⟩, ?_⟩
        rintro ⟨b, hb, hforeign⟩
        exact absurd (hbytes b hb) hforeign

/-- The decoder refuses what is not base64url exactly when the text has no other ASCII byte and no lone carriage
    return, or is refused for a byte above 127, a space inside of a line, a third '.' or a character behind a '.'. With
    the '=' of the table as a second padding character, there may also be '=' at the end. -/
theorem rejects_exact (s : CString) :
    (RejectsRight [46] s ↔ ¬ Accepted s ∨ (∀ b ∈ s, Allowed [46] b) ∧ BreaksWhole s) ∧
      (RejectsRight [46, 61] s ↔
        ¬ Accepted s ∨ (∀ b ∈ s, Allowed [46, 61] b) ∧ BreaksWhole s ∧ Closed [46, 61] s) := by
  refine ⟨?_, rejectsRight_iff [46, 61] s⟩
  rw [rejectsRight_iff]
  constructor
  · rintro (h | ⟨hbytes, hbreaks, -⟩)
    · exact .inl h
    · exact .inr ⟨hbytes, hbreaks⟩
  · intro h
    by_cases haccepted : Accepted s
    · rcases h with h | ⟨hbytes, hbreaks⟩
      · exact .inl h
      · exact .inr ⟨hbytes, hbreaks, haccepted.padding⟩
    · exact .inl haccepted

/-- A '!' is decoded. -/
theorem exclamation_accepted : ¬ RejectsRight [46] [33] ∧ ¬ RejectsRight [46, 61] [33] := by
  have hrun : base64UrlDecode 3 ([33] ++ [0, 0, 0]) [33].length = some ⟨.ok, some 0, [255, 255, 255]⟩ := by
    decide
  constructor
  · intro h
    have hwf := (h 3 [0, 0, 0] _ hrun).1 rfl
    have hbyte := hwf.bytes 33 List.mem_cons_self
    unfold Allowed at hbyte
    revert hbyte
    decide
  · intro h
    have hwf := (h 3 [0, 0, 0] _ hrun).1 rfl
    have hbyte := hwf.bytes 33 List.mem_cons_self
    unfold Allowed at hbyte
    revert hbyte
    decide

end DSLink.Base64
