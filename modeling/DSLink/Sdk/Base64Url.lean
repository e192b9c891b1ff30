import DSLink.Broker.State

/-!
# `Sdk.Base64Url` — `dslink_base64_url_decode`

The decoder goes over the text twice: the first pass checks it and counts, the second one writes. It takes the
memory from `src` on, of which `sLen` bytes are the text: the second pass reads up to the next multiple of four.
There is no result where it reads or writes outside of the two buffers.

## Contents
- `base64DecMap`, `firstPass`, `secondPass`, `base64UrlDecode`.
- `decodeText`: a text with zeros behind it, and the rules the users of the decoder go by.
-/

namespace DSLink

/-- `base64_dec_map_`. -/
def base64DecMap : List Nat :=
  [127, 127, 127, 127, 127, 127, 127, 127, 127, 127,
   127, 127, 127, 127, 127, 127, 127, 127, 127, 127,
   127, 127, 127, 127, 127, 127, 127, 127, 127, 127,
   127, 127, 127, 127, 127, 127, 127, 127, 127, 127,
   127, 127, 127, 127, 127,  62, 127, 127,  52,  53,
    54,  55,  56,  57,  58,  59,  60,  61, 127, 127,
   127,  64, 127, 127, 127,   0,   1,   2,   3,   4,
     5,   6,   7,   8,   9,  10,  11,  12,  13,  14,
    15,  16,  17,  18,  19,  20,  21,  22,  23,  24,
    25, 127, 127, 127, 127,  63, 127,  26,  27,  28,
    29,  30,  31,  32,  33,  34,  35,  36,  37,  38,
    39,  40,  41,  42,  43,  44,  45,  46,  47,  48,
    49,  50,  51, 127, 127, 127, 127, 127]

/-- `base64_dec_map_[c]`. -/
def decMap (c : UInt8) : Option Nat := base64DecMap[c.toNat]?

/-- The first pass, with the counts of characters and of dots; `x` is the number of spaces just skipped. No entry of
    the table is 128, so a byte up to 127 is never refused for what it is. -/
def firstPass : List UInt8 → Nat → Nat → Nat → Option (Nat × Nat)
  | [], _, n, j => some (n, j)
  | c :: rest, x, n, j =>
    if c = 32 then firstPass rest (x + 1) n j
    else if c = 13 ∧ rest.head? = some 10 then firstPass rest 0 n j
    else if c = 10 then firstPass rest 0 n j
    else if x ≠ 0 then none
    else
      let j := if c = 46 then j + 1 else j
      if c = 46 ∧ 2 < j then none
      else
        match decMap c with
        | none => none
        | some v =>
          if v = 128 then none
          else if v < 64 ∧ j ≠ 0 then none
          else firstPass rest 0 (n + 1) j

/-- The bytes that are written for four characters. -/
def emitted (j x : Nat) : List UInt8 :=
  [UInt8.ofNat (x / 65536 % 256), UInt8.ofNat (x / 256 % 256), UInt8.ofNat (x % 256)].take j

/-- The second pass. `j` and `x` have 32 bits. -/
def secondPass : List UInt8 → Nat → Nat → Nat → List UInt8 → Option (List UInt8)
  | [], _, _, _, out => some out
  | c :: rest, j, n, x, out =>
    if c = 13 ∨ c = 10 ∨ c = 32 then secondPass rest j n x out
    else
      match decMap c with
      | none => none
      | some v =>
        let j := if v = 64 then (j + 4294967295) % 4294967296 else j
        let x := (x * 64 + v % 64) % 4294967296
        if n + 1 = 4 then secondPass rest j 0 x (out ++ emitted j x) else secondPass rest j (n + 1) x out

/-- The return values. -/
inductive DecodeCode
  | ok
  | invalidCharacter
  | bufferTooSmall
  deriving DecidableEq

/-- What a call leaves: the return value, `*oLen` if it was set, and the bytes from `dst` on that were written. -/
structure Decoded where
  code : DecodeCode
  oLen : Option Nat
  written : List UInt8
  deriving DecidableEq

/-- `a - b` as `size_t`. -/
def sizeSub (a b : Nat) : Nat := (18446744073709551616 + a - b) % 18446744073709551616

/-- `alignedLen`. -/
def alignedLen (sLen : Nat) : Nat := (sLen + 3) / 4 * 4

/-- `dslink_base64_url_decode` into a buffer of `dLen` bytes. -/
def base64UrlDecode (dLen : Nat) (src : List UInt8) (sLen : Nat) : Option Decoded :=
  if src.length < sLen then none
  else
    match firstPass (src.take sLen) 0 0 0 with
    | none => some ⟨.invalidCharacter, none, []⟩
    | some (n, j) =>
      if n = 0 then some ⟨.ok, some 0, []⟩
      else if dLen < (n * 6 + 7) / 8 - j then some ⟨.bufferTooSmall, some ((n * 6 + 7) / 8 - j), []⟩
      else if src.length < alignedLen sLen then none
      else do
        let written ← secondPass (src.take (alignedLen sLen)) 3 0 0 []
        if dLen < written.length then none
        else some ⟨.ok, some (sizeSub written.length (alignedLen sLen - sLen)), written⟩

/-! ## Texts with zeros behind them -/

/-- The decoder on a text that has zeros behind it. -/
def decodeText (dLen : Nat) (s : CString) : Option Decoded :=
  base64UrlDecode dLen (s ++ List.replicate 4 0) s.length

theorem alignedLen_bounds (n : Nat) : n ≤ alignedLen n ∧ alignedLen n ≤ n + 3 := by
  unfold alignedLen
  omega

theorem take_append_zeros {s : CString} {k m : Nat} (hle : s.length ≤ m) (hm : m ≤ s.length + k) :
    (s ++ List.replicate k (0 : UInt8)).take m = s ++ List.replicate (m - s.length) 0 := by
  rw [List.take_append, List.take_of_length_le hle, List.take_replicate, Nat.min_eq_left (by omega)]

/-- How many zeros there are makes no difference, if there are enough for the second pass. -/
theorem base64UrlDecode_zeros (dLen : Nat) (s : CString) {k : Nat} (hk : alignedLen s.length ≤ s.length + k) :
    base64UrlDecode dLen (s ++ List.replicate k 0) s.length = decodeText dLen s := by
  obtain ⟨hle, hbound⟩ := alignedLen_bounds s.length
  have hlength : ∀ k : Nat, (s ++ List.replicate k (0 : UInt8)).length = s.length + k := by simp
  have htext : ∀ k : Nat, (s ++ List.replicate k (0 : UInt8)).take s.length = s :=
    fun k => List.take_left' rfl
  have haligned := take_append_zeros (s := s) (k := k) hle hk
  have haligned' := take_append_zeros (s := s) (k := 4) hle (by omega)
  have htext' : ∀ k : Nat, ¬s.length + k < s.length := by omega
  have hk' : ¬s.length + k < alignedLen s.length := by omega
  have h4 : ¬s.length + 4 < alignedLen s.length := by omega
  unfold decodeText base64UrlDecode
  simp only [hlength, htext, haligned, haligned', htext', hk', h4, if_false]

/-- Where the decoder reports a length, all bytes up to it were written, if the buffer is not huge. -/
theorem oLen_le_written {dLen sLen len : Nat} {src : List UInt8} {decoded : Decoded} (hd : dLen < 4294967296)
    (h : base64UrlDecode dLen src sLen = some decoded) (hcode : decoded.code = .ok) (hlen : decoded.oLen = some len)
    (hsmall : len < 4294967296) : len ≤ decoded.written.length := by
  obtain ⟨hle, hbound⟩ := alignedLen_bounds sLen
  unfold base64UrlDecode at h
  split at h
  · cases h
  · split at h
    · cases h
      cases hcode
    · split at h
      · cases h
        cases hlen
        exact Nat.le_refl _
      · split at h
        · cases h
          cases hcode
        · split at h
          · cases h
          · simp only [Option.bind_eq_bind, Option.bind_eq_some_iff] at h
            obtain ⟨written, -, h⟩ := h
            split at h
            · cases h
            · obtain rfl := Option.some.inj h
              obtain rfl := Option.some.inj hlen
              show sizeSub _ _ ≤ written.length
              change sizeSub _ _ < 4294967296 at hsmall
              unfold sizeSub at hsmall ⊢
              omega

end DSLink
