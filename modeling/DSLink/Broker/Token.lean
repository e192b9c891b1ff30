import DSLink.Broker.Permission
import DSLink.Sdk.Base64Url

/-!
# `Broker.Token` — `get_token_node`

A token that a link sends is the name of a token node, 16 characters, and the text of a hash. The result code and
the length that the decoder gives are not looked at, and the buffer it writes to is not initialised: what it held
before is an argument here. There is no result where memory outside of the arguments and buffers is used.

## Contents
- `strncpy`, `strlen`, `getTokenNode`.
- `Proves`: what a token has to be; `Sound`.
- `HashDecides`, `token_acceptance_sound`.
-/

namespace DSLink.Token

/-- `strncpy` into a buffer of `n` bytes: zeros behind a short text, no end behind a long one. -/
def strncpy (n : Nat) (s : CString) : List UInt8 := s.take n ++ List.replicate (n - s.length) 0

/-- `strlen`, for memory that may hold no zero. -/
def strlen (memory : List UInt8) : Option Nat := memory.findIdx? (· = 0)

/-- The token nodes by name. -/
abbrev Tokens := AssocMap CString Metadata

/-- `json_is_integer(countJson) && json_integer_value(countJson) <= 0`. -/
def spent (metadata : Metadata) : Bool :=
  match metadata.get (cstr "$$count") with
  | some (.integer count) => count ≤ 0
  | _ => false

/-- The text of `$$token`. -/
def tokenText (metadata : Metadata) : Option CString := (metadata.get (cstr "$$token")).bind Json.stringValue

/-- `tokenPath`. -/
def tokenPath (tokenId : CString) : CString := cstr "token/" ++ tokenId

section

variable (sha256 : List UInt8 → List UInt8) (stat : CString → Bool)

/-- `get_token_node`, with the name of the node it returns and the nodes it leaves: a token whose file is gone is
    removed. `hashBinary` is what the buffer of that name holds before. -/
def getTokenNode (tokens : Tokens) (hashBinary : List UInt8) (hashedToken dsId : CString) :
    Option (Option CString × Tokens) :=
  if hashedToken.length < 16 then none
  else
    let tokenId := hashedToken.take 16
    let tokenHash := strncpy 64 (hashedToken.drop 16)
    match tokens.get tokenId with
    | none => some (none, tokens)
    | some metadata =>
      if spent metadata then some (none, tokens)
      else
        match tokenText metadata with
        | none => some (none, tokens)
        | some token =>
          if !stat (tokenPath tokenId) then some (none, tokens.erase tokenId)
          else do
            let length ← strlen tokenHash
            let decoded ← base64UrlDecode 40 tokenHash length
            let hashBinary := decoded.written ++ hashBinary.drop decoded.written.length
            if token.length + 1 < 48 then none
            else if sha256 (dsId ++ (token ++ [0]).take 48) = hashBinary.take 32 then some (some tokenId, tokens)
            else some (none, tokens)

/-- `h` is the name of a usable token node followed by the text of the hash of `dsId` and that token. -/
def Proves (tokens : Tokens) (h dsId name : CString) : Prop :=
  ∃ s metadata token decoded, h = name ++ s ∧ name.length = 16 ∧ tokens.get name = some metadata ∧
    spent metadata = false ∧ tokenText metadata = some token ∧ stat (tokenPath name) = true ∧
    decodeText 40 s = some decoded ∧ decoded.code = .ok ∧ decoded.oLen = some 32 ∧
    decoded.written.take 32 = sha256 (dsId ++ token)

/-- Whatever the buffer holds, the function stays in its memory and returns only a node that `h` proves. -/
def Sound (tokens : Tokens) (h dsId : CString) : Prop :=
  ∀ hashBinary : List UInt8, hashBinary.length = 40 → ∃ result tokens',
    getTokenNode sha256 stat tokens hashBinary h dsId = some (result, tokens') ∧
      ∀ name, result = some name → Proves sha256 stat tokens h dsId name

/-- `h` has a name, and if that is the name of a usable token, the rest fits into its buffers and either decodes to
    32 bytes or has a byte among the first 32 that is not the one of the hash. -/
def HashDecides (tokens : Tokens) (h dsId : CString) : Prop :=
  16 ≤ h.length ∧ ∀ metadata token, tokens.get (h.take 16) = some metadata → spent metadata = false →
    tokenText metadata = some token → stat (tokenPath (h.take 16)) = true →
    (h.drop 16).length ≤ 63 ∧ ∃ decoded, decodeText 40 (h.drop 16) = some decoded ∧
      (decoded.code = .ok ∧ decoded.oLen = some 32 ∨
        ∃ i b, i < 32 ∧ decoded.written[i]? = some b ∧ (sha256 (dsId ++ token))[i]? ≠ some b)

end

/-! ## The buffers -/

theorem strncpy_short {n : Nat} {s : CString} (h : s.length ≤ n) :
    strncpy n s = s ++ List.replicate (n - s.length) 0 := by
  rw [strncpy, List.take_of_length_le h]

/-- A text without zeros has its length found exactly if there is room for its end. -/
theorem strlen_strncpy {n : Nat} {s : CString} (h0 : 0 ∉ s) :
    strlen (strncpy n s) = if s.length < n then some s.length else none := by
  have hfind : ∀ t : CString, 0 ∉ t → t.findIdx? (· = 0) = none := by
    rintro t ht
    apply List.findIdx?_eq_none_iff.mpr
    rintro c hc
    exact decide_eq_false (fun he => ht (he ▸ hc))
  have htake : 0 ∉ s.take n := fun h => h0 (List.mem_of_mem_take h)
  unfold strlen strncpy
  rw [List.findIdx?_append, hfind _ htake, Option.none_or, List.findIdx?_replicate]
  by_cases hlt : s.length < n
  · have hpos : 0 < n - s.length := by omega
    simp [hpos, hlt, Nat.le_of_lt hlt]
  · have hzero : n - s.length = 0 := by omega
    simp [hzero, hlt]

/-- The decoder in `get_token_node` sees a text with zeros behind it. -/
theorem decode_strncpy {s : CString} (h : s.length ≤ 63) :
    base64UrlDecode 40 (strncpy 64 s) s.length = decodeText 40 s := by
  have haligned : alignedLen s.length ≤ s.length + (64 - s.length) := by
    unfold alignedLen
    omega
  rw [strncpy_short (by omega), base64UrlDecode_zeros 40 s haligned]

section

variable {stat : CString → Bool} {tokens : Tokens} {h : CString} {metadata : Metadata} {token : CString}

/-- The function on a hash that gets as far as the decoder. -/
theorem getTokenNode_usable (sha256 : List UInt8 → List UInt8) (dsId : CString) (hashBinary : List UInt8)
    (hlen : 16 ≤ h.length) (h0 : 0 ∉ h) (hget : tokens.get (h.take 16) = some metadata)
    (hspent : spent metadata = false) (htoken : tokenText metadata = some token) (h48 : token.length = 48)
    (hstat : stat (tokenPath (h.take 16)) = true) :
    getTokenNode sha256 stat tokens hashBinary h dsId =
      if (h.drop 16).length ≤ 63 then
        (decodeText 40 (h.drop 16)).map (fun decoded =>
          (if sha256 (dsId ++ token) = (decoded.written ++ hashBinary.drop decoded.written.length).take 32 then
            some (h.take 16) else none, tokens))
      else none := by
  have hdrop : 0 ∉ h.drop 16 := fun hm => h0 (List.mem_of_mem_drop hm)
  have htext : (token ++ [0]).take 48 = token := List.take_left' h48
  unfold getTokenNode
  rw [if_neg (Nat.not_lt.mpr hlen)]
  simp only [hget, hspent, htoken, hstat, Bool.false_eq_true, if_false, Bool.not_true, strlen_strncpy hdrop]
  by_cases hshort : (h.drop 16).length ≤ 63
  · rw [if_pos (by omega), if_pos hshort]
    simp only [Option.bind_eq_bind, Option.bind_some, decode_strncpy hshort, htext]
    cases decodeText 40 (h.drop 16) with
    | none => rfl
    | some decoded =>
      have h47 : ¬token.length + 1 < 48 := by omega
      simp only [Option.bind_some, h47, if_false, Option.map_some]
      split <;> rfl
  · rw [if_neg (by omega), if_neg hshort]
    rfl

variable {sha256 : List UInt8 → List UInt8} {dsId : CString}

/-- A result of the function is the name in front of the hash. -/
theorem getTokenNode_name {hashBinary : List UInt8} {tokens' : Tokens} {name : CString}
    (hrun : getTokenNode sha256 stat tokens hashBinary h dsId = some (some name, tokens')) :
    name = h.take 16 ∧ 16 ≤ h.length ∧ tokens' = tokens ∧ ∃ metadata token,
      tokens.get name = some metadata ∧ spent metadata = false ∧ tokenText metadata = some token ∧
        stat (tokenPath name) = true := by
  unfold getTokenNode at hrun
  split at hrun
  · cases hrun
  · rename_i hlen
    dsimp only at hrun
    split at hrun
    · cases hrun
    · rename_i metadata hget
      split at hrun
      · cases hrun
      · rename_i hspent
        split at hrun
        · cases hrun
        · rename_i token htoken
          split at hrun
          · cases hrun
          · rename_i hstat
            simp only [Option.bind_eq_bind, Option.bind_eq_some_iff] at hrun
            obtain ⟨length, -, decoded, -, hrun⟩ := hrun
            split at hrun
            · cases hrun
            · split at hrun
              · cases hrun
                have hlive : stat (tokenPath (h.take 16)) = true := by simpa using hstat
                refine ⟨rfl, Nat.not_lt.mp hlen, rfl, metadata, token, hget, ?_, htoken, hlive⟩
                exact Bool.eq_false_iff.mpr hspent
              · cases hrun

/-! ## Soundness -/

/-- A hash is accepted with some content of the buffer unless the decoder writes another byte. -/
theorem accepted_of_prefix {digest : List UInt8} (written : List UInt8) (hdigest : digest.length = 32)
    (hagree : ∀ i b, i < 32 → written[i]? = some b → digest[i]? = some b) :
    digest = (written ++ (digest ++ List.replicate 8 0).drop written.length).take 32 := by
  apply List.ext_getElem?
  intro i
  by_cases hi : i < 32
  · rw [List.getElem?_take_of_lt hi]
    by_cases hw : i < written.length
    · rw [List.getElem?_append_left hw, List.getElem?_eq_getElem hw]
      exact hagree i _ hi (List.getElem?_eq_getElem hw)
    · rw [List.getElem?_append_right (Nat.not_lt.mp hw), List.getElem?_drop,
        Nat.add_sub_cancel' (Nat.not_lt.mp hw), List.getElem?_append_left (by omega)]
  · rw [List.getElem?_eq_none (by omega), List.getElem?_eq_none]
    rw [List.length_take]
    omega

/-- A token is accepted only for a proof of it, and within the memory, if and only if the hash decides. -/
theorem token_acceptance_sound (hsha : ∀ x, (sha256 x).length = 32) (h0 : 0 ∉ h)
    (htokens : ∀ name metadata token, tokens.get name = some metadata → tokenText metadata = some token →
      token.length = 48) :
    Sound sha256 stat tokens h dsId ↔ HashDecides sha256 stat tokens h dsId := by
  constructor
  · intro hsound
    have hlen : 16 ≤ h.length := by
      obtain ⟨result, tokens', hrun, -⟩ := hsound (List.replicate 40 0) List.length_replicate
      by_contra hlen
      rw [getTokenNode, if_pos (by omega)] at hrun
      cases hrun
    refine ⟨hlen, ?_⟩
    intro metadata token hget hspent htoken hstat
    -- the buffer holds the hash that is expected
    obtain ⟨result, tokens', hrun, hproves⟩ :=
      hsound (sha256 (dsId ++ token) ++ List.replicate 8 0) (by simp [hsha])
    rw [getTokenNode_usable _ _ _ hlen h0 hget hspent htoken (htokens _ _ _ hget htoken) hstat] at hrun
    split at hrun
    · rename_i hshort
      refine ⟨hshort, ?_⟩
      obtain ⟨decoded, hdecoded, hrun⟩ := Option.map_eq_some_iff.mp hrun
      refine ⟨decoded, hdecoded, ?_⟩
      by_contra hcon
      obtain ⟨hlength, hagree⟩ := not_or.mp hcon
      have hprefix := accepted_of_prefix decoded.written (hsha (dsId ++ token)) (by
        rintro i b hi hb
        by_contra hne
        exact hagree ⟨i, b, hi, hb, hne⟩)
      rw [if_pos hprefix] at hrun
      obtain ⟨rfl, rfl⟩ := Prod.mk.inj hrun
      obtain ⟨s, metadata', token', decoded', hs, hname, -, -, -, -, hdecoded', hcode, holen, -⟩ := hproves _ rfl
      have hrest : h.drop 16 = s := by
        conv_lhs => rw [hs]
        exact List.drop_left' hname
      rw [hrest, hdecoded'] at hdecoded
      obtain rfl := Option.some.inj hdecoded
      exact hlength ⟨hcode, holen⟩
    · cases hrun
  · rintro ⟨hlen, hdecides⟩ hashBinary hbuffer
    have hrefuse : ∀ tokens', getTokenNode sha256 stat tokens hashBinary h dsId = some (none, tokens') →
        ∃ result tokens', getTokenNode sha256 stat tokens hashBinary h dsId = some (result, tokens') ∧
          ∀ name, result = some name → Proves sha256 stat tokens h dsId name := by
      rintro tokens' hrun
      exact ⟨none, tokens', hrun, fun name hname => by cases hname⟩
    have hstart : ¬h.length < 16 := Nat.not_lt.mpr hlen
    cases hget : tokens.get (h.take 16) with
    | none =>
      apply hrefuse tokens
      rw [getTokenNode, if_neg hstart]
      simp only [hget]
    | some metadata =>
      cases hspent : spent metadata with
      | true =>
        apply hrefuse tokens
        rw [getTokenNode, if_neg hstart]
        simp only [hget, hspent, if_true]
      | false =>
        cases htoken : tokenText metadata with
        | none =>
          apply hrefuse tokens
          rw [getTokenNode, if_neg hstart]
          simp only [hget, hspent, htoken, Bool.false_eq_true, if_false]
        | some token =>
          cases hstat : stat (tokenPath (h.take 16)) with
          | false =>
            apply hrefuse (tokens.erase (h.take 16))
            rw [getTokenNode, if_neg hstart]
            simp only [hget, hspent, htoken, hstat, Bool.false_eq_true, if_false, Bool.not_false, if_true]
          | true =>
            obtain ⟨hshort, decoded, hdecoded, hcase⟩ := hdecides metadata token hget hspent htoken hstat
            have hrun := getTokenNode_usable sha256 dsId hashBinary hlen h0 hget hspent htoken
              (htokens _ _ _ hget htoken) hstat
            rw [if_pos hshort, hdecoded, Option.map_some] at hrun
            refine ⟨_, _, hrun, ?_⟩
            rintro name hname
            split at hname
            · rename_i hequal
              obtain rfl := Option.some.inj hname
              rcases hcase with ⟨hcode, holen⟩ | ⟨i, b, hi, hb, hne⟩
              · have hwritten : 32 ≤ decoded.written.length :=
                  oLen_le_written (by decide) hdecoded hcode holen (by decide)
                have hname : (h.take 16).length = 16 := List.length_take_of_le hlen
                have hdigest : decoded.written.take 32 = sha256 (dsId ++ token) := by
                  rw [hequal, List.take_append_of_le_length hwritten]
                exact ⟨h.drop 16, metadata, token, decoded, (List.take_append_drop 16 h).symm, hname, hget, hspent,
                  htoken, hstat, hdecoded, hcode, holen, hdigest⟩
              · -- the byte that differs is still there
                have hlt : i < decoded.written.length := (List.getElem?_eq_some_iff.mp hb).1
                apply absurd _ hne
                rw [hequal, List.getElem?_take_of_lt hi, List.getElem?_append_left hlt, hb]
            · cases hname

end

/-! ## One token -/

/-- The name of a token. -/
def tokenName : CString := List.replicate 16 65

/-- Its token node, which may be used once. -/
def oneToken : Tokens :=
  .set .empty tokenName
    ((AssocMap.empty.set (cstr "$$token") (Json.string (List.replicate 48 65))).set (cstr "$$count") (.integer 1))

/-- SHA-256 on the text of the link `d` and the token. -/
def sha256At (x : List UInt8) : List UInt8 :=
  if x = cstr "d" ++ List.replicate 48 65 then
    [179, 86, 221, 168, 219, 161, 228, 99, 222, 247, 223, 121, 42, 228, 217, 205,
     138, 65, 122, 235, 199, 69, 199, 33, 193, 1, 241, 58, 42, 248, 12, 85]
  else List.replicate 32 0

theorem sha256At_length (x : List UInt8) : (sha256At x).length = 32 := by
  unfold sha256At
  split <;> rfl

theorem oneToken_length (name : CString) (metadata : Metadata) (token : CString)
    (hget : oneToken.get name = some metadata) (htoken : tokenText metadata = some token) : token.length = 48 := by
  unfold oneToken at hget
  rw [AssocMap.get_set] at hget
  split at hget
  · obtain rfl := Option.some.inj hget
    obtain rfl := Option.some.inj htoken
    exact List.length_replicate
  · cases hget

/-- What the link `d` sends for the token. -/
def validToken : CString := tokenName ++ cstr "s1bdqNuh5GPe9995KuTZzYpBeuvHRcchwQHxOir4DFU"

theorem token_acceptance_sound_valid :
    (Sound sha256At (fun _ => true) oneToken validToken (cstr "d") ↔
      HashDecides sha256At (fun _ => true) oneToken validToken (cstr "d")) ∧
    (getTokenNode sha256At (fun _ => true) oneToken (List.replicate 40 0) validToken (cstr "d")).map Prod.fst
      = some (some tokenName) :=
  ⟨token_acceptance_sound sha256At_length (by decide) oneToken_length, by decide⟩

/-- Nothing but the name of the token is sent, and the buffer still holds the hash of an earlier call. -/
theorem token_accepted_without_hash : ¬Sound sha256At (fun _ => true) oneToken tokenName (cstr "d") := by
  intro h
  obtain ⟨result, tokens', hrun, hproves⟩ :=
    h (sha256At (cstr "d" ++ List.replicate 48 65) ++ List.replicate 8 0) (by decide)
  have haccepted : (getTokenNode sha256At (fun _ => true) oneToken
      (sha256At (cstr "d" ++ List.replicate 48 65) ++ List.replicate 8 0) tokenName (cstr "d")).map Prod.fst
        = some (some tokenName) := by decide
  rw [hrun] at haccepted
  obtain ⟨s, metadata, token, decoded, hs, -, -, -, -, -, hdecoded, -, holen, -⟩ :=
    hproves tokenName (Option.some.inj haccepted)
  obtain rfl : s = [] := List.append_right_eq_self.mp hs.symm
  obtain rfl := Option.some.inj hdecoded
  cases holen

end DSLink.Token
