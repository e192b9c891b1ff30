import DSLink.Broker.ConnBuffers
import DSLink.Broker.UriParams
import DSLink.Sdk.Base64RoundTrip
import DSLink.Sdk.Escape
import DSLink.Sdk.UrlParts

/-!
# `Sdk.HandshakeReq` — `dslink_handshake_generate_req`

The request with which a link opens its handshake, from `sdk/src/handshake.c`. The URI is formatted into 256 bytes and
the request into 512; `snprintf` is given one byte less and returns the length that the whole text has, and that is
where the next text or the NUL goes.

## Contents
- `store`, `snprintf`: the C library on a buffer.
- `prepare`, `writeUri`, `dslinkHandshakeGenerateReq`.
- `Complete`, `Sound`: what is asked of a request.
- `Fits`, `handshake_req_exact`.
-/

namespace DSLink.HandshakeReq

open Base64 Http

/-! ## Buffers -/

/-- A write to `buf + i`; there is none outside of the buffer. -/
def store (buf : List UInt8) (i : Int) (bytes : List UInt8) : Option (List UInt8) :=
  if 0 ≤ i ∧ i.toNat + bytes.length ≤ buf.length then
    some (buf.take i.toNat ++ bytes ++ buf.drop (i.toNat + bytes.length))
  else none

/-- The result of `snprintf`, an `int`. -/
def formatted (text : CString) : Int := if text.length < 2147483648 then text.length else -1

/-- `snprintf(buf + i, n, ...)` for a text that is to be written, with its result. -/
def snprintf (buf : List UInt8) (i : Int) (n : Nat) (text : CString) : Option (List UInt8 × Int) :=
  if n = 0 then some (buf, formatted text)
  else (store buf i (text.take (n - 1) ++ [0])).map fun buf => (buf, formatted text)

/-- The value of an `int` as a `size_t`. -/
def sizeOf (n : Int) : Nat := (n % 18446744073709551616).toNat

/-- `(int) n`. -/
def intOf (n : Nat) : Int := (n + 2147483648 : Int) % 4294967296 - 2147483648

/-- The string in a buffer. -/
def cString (buf : List UInt8) : Option CString := if 0 ∈ buf then some (buf.takeWhile (· ≠ 0)) else none

/-- `"%d"`. -/
def decimalInt (n : Int) : CString := if n < 0 then 45 :: decimal n.natAbs else decimal n.natAbs

/-- `DSLINK_POST_REQ`. -/
def postReq (uri host : CString) (port : Nat) (len : Int) (body : CString) : CString :=
  cstr "POST " ++ uri ++ cstr " HTTP/1.1\r\nHost: " ++ host ++ (58 :: decimal port) ++ cstr "\r\nContent-Length: " ++
    decimalInt len ++ cstr "\r\n\r\n" ++ body ++ cstr "\r\n"

/-! ## The request -/

/-- `DSLink`, as far as the request is made of it. -/
structure Link (J : Type) where
  name : CString
  isRequester : Bool
  isResponder : Bool
  linkData : Option J
  token : Option CString
  url : Url

/-- The object of the body. -/
structure Body (J : Type) where
  publicKey : CString
  isRequester : Bool
  isResponder : Bool
  version : CString
  linkData : Option J

/-- What mbedtls makes of the key, SHA-256, jansson, whether there is memory, and what a new buffer has in it. -/
structure Env (J : Type) where
  ecpPointWriteBinary : Option (List UInt8)
  sha256 : List UInt8 → List UInt8
  jsonDumps : Body J → Option CString
  mallocReq : Bool
  mallocDsId : Bool
  junk : Nat → UInt8

variable {J : Type}

/-- A new buffer. -/
def Env.buffer (env : Env J) (size : Nat) : List UInt8 := (List.range size).map env.junk

/-- The name of the link with the hash of its key. -/
def Env.dsId (env : Env J) (link : Link J) (pubKeyBin : List UInt8) : CString :=
  link.name ++ 45 :: (base64UrlEncode 45 (env.sha256 pubKeyBin)).text

/-- The token's part of the URI: its first 16 characters with the hash of the dsId and the token. -/
def Env.tokenPart (env : Env J) (dsId token : CString) : CString :=
  cstr "&token=" ++ token.take 16 ++ (base64UrlEncode 64 (env.sha256 (dsId ++ token.take 48))).text

/-- The dsId and the body; `none` is `goto fail`. -/
def prepare (env : Env J) (link : Link J) : Option (CString × CString) := do
  if env.mallocReq = false then none
  let pubKeyBin ← env.ecpPointWriteBinary
  let pubKey := base64UrlEncode 90 pubKeyBin
  if pubKey.ok = false ∨ (base64UrlEncode 45 (env.sha256 pubKeyBin)).ok = false ∨ env.mallocDsId = false then none
  let body ← env.jsonDumps ⟨pubKey.text, link.isRequester, link.isResponder, cstr "1.1.2", link.linkData⟩
  some (env.dsId link pubKeyBin, body)

/-- The URI in its buffer. -/
def writeUri (env : Env J) (uri dsId : CString) (token : Option CString) : Option (List UInt8) := do
  let (buf, reqLen) ← snprintf (env.buffer 256) 0 255 (uri ++ cstr "?dsId=" ++ dslinkStrEscape dsId)
  match token with
  | none => store buf reqLen [0]
  | some token => do
    let (buf, more) ← snprintf buf reqLen (sizeOf (255 - reqLen)) (env.tokenPart dsId token)
    store buf (reqLen + more) [0]

/-- The request in its buffer. -/
def writeReq (env : Env J) (text : CString) : Option (List UInt8) := do
  let (req, reqLen) ← snprintf (env.buffer 512) 0 511 text
  store req reqLen [0]

/-- `dslink_handshake_generate_req`: `NULL`, or the request with the dsId. There is no result where it writes outside
    of a buffer, or where `snprintf` is given a NULL for a string. -/
def dslinkHandshakeGenerateReq (env : Env J) (link : Link J) : Option (Option (CString × CString)) :=
  match prepare env link with
  | none => some none
  | some (dsId, body) => do
    let uri ← link.url.uri
    let buf ← writeUri env uri dsId link.token
    let target ← cString buf
    let host ← link.url.host
    let req ← writeReq env (postReq target host link.url.port (intOf body.length) body)
    let text ← cString req
    some (some (text, dsId))

/-! ## What is asked of a request -/

/-- The URI that is to be written. -/
def target (env : Env J) (link : Link J) (dsId : CString) : CString :=
  link.url.uri.getD [] ++ cstr "?dsId=" ++ dslinkStrEscape dsId ++ link.token.elim [] (env.tokenPart dsId)

/-- Nothing of the request is cut off, no part of its lines has a separator of the lines in it, and its first parameter
    is the dsId. -/
structure Complete (env : Env J) (link : Link J) (dsId body text : CString) : Prop where
  whole : ∃ host, link.url.host = some host ∧ 13 ∉ host ∧ 10 ∉ host ∧
    text = postReq (target env link dsId) host link.url.port body.length body
  line : ∀ c ∈ target env link dsId, c ≠ 32 ∧ c ≠ 13 ∧ c ≠ 10
  dsId : ∃ v, (brokerHttpParseUri (target env link dsId)).params.head? = some (cstr "dsId", some v) ∧
    dslinkStrUnescape v = dsId

/-- The function writes inside of its buffers and returns NULL or a complete request. -/
def Sound (env : Env J) (link : Link J) : Prop :=
  ∃ result, dslinkHandshakeGenerateReq env link = some result ∧ ∀ text dsId, result = some (text, dsId) →
    ∃ body, prepare env link = some (dsId, body) ∧ Complete env link dsId body text

/-- The length of the URI. -/
def uriLength (link : Link J) : Nat :=
  (link.url.uri.getD []).length + escapedLength link.name + if link.token.isSome then 116 else 50

/-- The length of the request. -/
def reqLength (link : Link J) (host body : CString) : Nat :=
  uriLength link + host.length + (decimal link.url.port).length + (decimal body.length).length + body.length + 47

/-- The URL has the dsId already, as the first parameter of its query. -/
def GivenFirst (uri dsId : CString) : Prop :=
  ∃ resource v rest, uri = resource ++ cstr "?dsId=" ++ v ++ 38 :: rest ∧ 63 ∉ resource ∧ 38 ∉ v ∧
    dslinkStrUnescape v = dsId

/-- The condition: URI and request have room in their buffers, no part has a separator of the lines in it, and the URL
    has no query and the name is ASCII. -/
structure Fits (link : Link J) (dsId body : CString) : Prop where
  request : ∃ host, link.url.host = some host ∧ 13 ∉ host ∧ 10 ∉ host ∧ reqLength link host body ≤ 510
  uri : uriLength link ≤ 254
  line : ∀ c ∈ link.url.uri.getD [] ++ (link.token.getD []).take 16, c ≠ 32 ∧ c ≠ 13 ∧ c ≠ 10
  dsId : 63 ∉ link.url.uri.getD [] ∧ Ascii link.name ∨ GivenFirst (link.url.uri.getD []) dsId

variable {buf rest : List UInt8} {N n : Nat} {t text uri dsId body token : CString} {env : Env J} {link : Link J}

/-! ## What is in a buffer -/

/-- A buffer of `N` bytes with the string `t` in it. -/
structure Holds (buf : List UInt8) (N : Nat) (t : CString) : Prop where
  length : buf.length = N
  string : ∃ rest, buf = t ++ 0 :: rest

theorem Holds.cString (h : Holds buf N t) (h0 : 0 ∉ t) : cString buf = some t := by
  obtain ⟨rest, rfl⟩ := h.string
  rw [HandshakeReq.cString, if_pos (by simp), takeWhile_sep h0]

theorem store_none {i : Int} {bytes : List UInt8} (h : i < 0 ∨ (buf.length : Int) < i + bytes.length) :
    store buf i bytes = none := by
  refine if_neg ?_
  omega

theorem snprintf_next (h : buf.length = N) (hbuf : t = buf.take t.length) (hn : 0 < n) (hN : t.length + n ≤ N) :
    ∃ buf', snprintf buf t.length n text = some (buf', formatted text) ∧ Holds buf' N (t ++ text.take (n - 1)) := by
  have hlen : (text.take (n - 1) ++ [0]).length ≤ n := by
    rw [List.length_append, List.length_take, List.length_singleton]
    omega
  refine ⟨t ++ (text.take (n - 1) ++ [0]) ++ buf.drop (t.length + (text.take (n - 1) ++ [0]).length), ?_, ?_, ?_⟩
  · have hroom : (0 : Int) ≤ t.length ∧ (t.length : Int).toNat + (text.take (n - 1) ++ [0]).length ≤ buf.length := by
      omega
    rw [HandshakeReq.snprintf, if_neg (by omega), store, if_pos hroom, Int.toNat_natCast, ← hbuf, Option.map_some]
  · have hdrop := congrArg List.length (List.take_append_drop (t.length + (text.take (n - 1) ++ [0]).length) buf)
    simp only [List.length_append, List.length_drop] at hdrop hlen ⊢
    omega
  · exact ⟨buf.drop (t.length + (text.take (n - 1) ++ [0]).length), by simp⟩

theorem Holds.snprintf (h : Holds buf N t) (hn : 0 < n) (hN : t.length + n ≤ N) :
    ∃ buf', snprintf buf t.length n text = some (buf', formatted text) ∧ Holds buf' N (t ++ text.take (n - 1)) := by
  refine snprintf_next h.length ?_ hn hN
  obtain ⟨rest, rfl⟩ := h.string
  rw [List.take_left]

theorem snprintf_first (h : buf.length = N) (hn : 0 < n) (hN : n ≤ N) :
    ∃ buf', snprintf buf 0 n text = some (buf', formatted text) ∧ Holds buf' N (text.take (n - 1)) := by
  have hrun := @snprintf_next buf N n [] text h rfl hn (by simpa using hN)
  exact hrun

/-- The NUL at the length of the text, which lies behind the string or ends it. -/
theorem Holds.terminate (h : Holds buf N t) {p : Nat} (ht : t.length ≤ p) (hp : p < N) :
    ∃ buf', store buf p [0] = some buf' ∧ Holds buf' N t := by
  obtain ⟨rest, rfl⟩ := h.string
  have hlen := h.length
  refine ⟨(t ++ 0 :: rest).take p ++ [0] ++ (t ++ 0 :: rest).drop (p + 1), ?_, ?_, ?_⟩
  · rw [store, if_pos (by rw [hlen, List.length_singleton]; omega)]
    rfl
  · simp only [List.length_append, List.length_take, List.length_drop, List.length_singleton, hlen]
    omega
  · rcases Nat.eq_or_lt_of_le ht with rfl | hlt
    · exact ⟨_, by rw [List.take_left, List.append_assoc]; rfl⟩
    · obtain ⟨k, rfl⟩ := Nat.exists_eq_add_of_lt hlt
      refine ⟨rest.take k ++ 0 :: (t ++ 0 :: rest).drop (t.length + k + 1 + 1), ?_⟩
      rw [Nat.add_assoc, List.take_length_add_append, List.take_succ_cons]
      simp

theorem formatted_eq (h : text.length < 2147483648) : formatted text = text.length := if_pos h

/-- A result that is no place in a buffer. -/
theorem formatted_out (h : N ≤ text.length) : formatted text < 0 ∨ (N : Int) < formatted text + 1 := by
  unfold formatted
  split <;> omega

theorem length_buffer (size : Nat) : (env.buffer size).length = size := by
  rw [Env.buffer, List.length_map, List.length_range]

/-- A text that is formatted into a new buffer, and the NUL at its length. -/
theorem format_some (hbuf : buf.length = N) (hN : 2 ≤ N) (hint : N ≤ 2147483648) (h : text.length < N) :
    ∃ buf1 buf2, snprintf buf 0 (N - 1) text = some (buf1, (text.length : Int)) ∧ Holds buf1 N (text.take (N - 2)) ∧
      store buf1 text.length [0] = some buf2 ∧ Holds buf2 N (text.take (N - 2)) := by
  obtain ⟨buf1, hformat, h1⟩ := @snprintf_first buf N (N - 1) text hbuf (by omega) (by omega)
  rw [formatted_eq (by omega)] at hformat
  obtain ⟨buf2, hstore, h2⟩ := h1.terminate (List.length_take_le' _ text) h
  exact ⟨buf1, buf2, hformat, h1, hstore, h2⟩

theorem store_formatted (hbuf : buf.length = N) (h : N ≤ text.length) : store buf (formatted text) [0] = none := by
  refine store_none ?_
  rw [hbuf, List.length_singleton]
  exact formatted_out h

theorem writeReq_some (h : text.length ≤ 511) : ∃ req, writeReq env text = some req ∧ Holds req 512 (text.take 510) := by
  obtain ⟨buf, req, hformat, -, hstore, hreq⟩ :=
    @format_some (env.buffer 512) 512 text (length_buffer 512) (by decide) (by decide) (by omega)
  refine ⟨req, ?_, hreq⟩
  show (snprintf (env.buffer 512) 0 511 text).bind _ = _
  rw [hformat]
  exact hstore

theorem writeReq_none (h : 511 < text.length) : writeReq env text = none := by
  obtain ⟨buf, hformat, hbuf⟩ := @snprintf_first (env.buffer 512) 512 511 text (length_buffer 512) (by decide) (by decide)
  show (snprintf (env.buffer 512) 0 511 text).bind _ = _
  rw [hformat]
  exact store_formatted hbuf.length h

/-- The URI of a link without a token, or up to the token. -/
def uriStart (uri dsId : CString) : CString := uri ++ cstr "?dsId=" ++ dslinkStrEscape dsId

theorem writeUri_plain (h : (uriStart uri dsId).length ≤ 255) :
    ∃ buf, writeUri env uri dsId none = some buf ∧ Holds buf 256 ((uriStart uri dsId).take 254) := by
  obtain ⟨buf1, buf, hformat, -, hstore, hbuf⟩ :=
    @format_some (env.buffer 256) 256 (uriStart uri dsId) (length_buffer 256) (by decide) (by decide) (by omega)
  refine ⟨buf, ?_, hbuf⟩
  show (snprintf (env.buffer 256) 0 255 (uriStart uri dsId)).bind _ = _
  rw [hformat]
  exact hstore

theorem writeUri_plain_none (h : 255 < (uriStart uri dsId).length) : writeUri env uri dsId none = none := by
  obtain ⟨buf, hformat, hbuf⟩ :=
    @snprintf_first (env.buffer 256) 256 255 (uriStart uri dsId) (length_buffer 256) (by decide) (by decide)
  show (snprintf (env.buffer 256) 0 255 (uriStart uri dsId)).bind _ = _
  rw [hformat]
  exact store_formatted hbuf.length h

/-- The call that formats the token. -/
theorem writeUri_some_token (env : Env J) (uri dsId token : CString) : writeUri env uri dsId (some token) =
    (snprintf (env.buffer 256) 0 255 (uriStart uri dsId)).bind fun first =>
      (snprintf first.1 first.2 (sizeOf (255 - first.2)) (env.tokenPart dsId token)).bind fun second =>
        store second.1 (first.2 + second.2) [0] := rfl

/-- Where the first text is in the buffer, the token is formatted behind it. -/
theorem writeUri_behind (hlen : (env.tokenPart dsId token).length = 66) (h : (uriStart uri dsId).length ≤ 254) :
    ∃ buf, Holds buf 256 ((uriStart uri dsId ++ env.tokenPart dsId token).take 254) ∧
      writeUri env uri dsId (some token) = store buf ((uriStart uri dsId ++ env.tokenPart dsId token).length : Int) [0] := by
  obtain ⟨buf1, -, hformat, h1, -, -⟩ :=
    @format_some (env.buffer 256) 256 (uriStart uri dsId) (length_buffer 256) (by decide) (by decide) (by omega)
  rw [List.take_of_length_le h] at h1
  obtain ⟨buf2, hnext, h2⟩ := @Holds.snprintf buf1 256 (255 - (uriStart uri dsId).length) _ (env.tokenPart dsId token) h1
    (by omega) (by omega)
  have hsize : sizeOf (255 - ((uriStart uri dsId).length : Int)) = 255 - (uriStart uri dsId).length := by
    unfold sizeOf
    omega
  have hcut : (uriStart uri dsId ++ env.tokenPart dsId token).take 254 =
      uriStart uri dsId ++ (env.tokenPart dsId token).take (255 - (uriStart uri dsId).length - 1) := by
    rw [List.take_append, List.take_of_length_le h, Nat.sub_right_comm]
  refine ⟨buf2, hcut ▸ h2, ?_⟩
  rw [writeUri_some_token, hformat, Option.bind_some, hsize, hnext, Option.bind_some, formatted_eq (by omega),
    List.length_append, Int.natCast_add]

theorem writeUri_token (hlen : (env.tokenPart dsId token).length = 66)
    (h : (uriStart uri dsId ++ env.tokenPart dsId token).length ≤ 255) :
    ∃ buf, writeUri env uri dsId (some token) = some buf ∧
      Holds buf 256 ((uriStart uri dsId ++ env.tokenPart dsId token).take 254) := by
  have hstart : (uriStart uri dsId).length ≤ 254 := by
    rw [List.length_append] at h
    omega
  obtain ⟨buf1, h1, hrun⟩ := @writeUri_behind J uri dsId token env hlen hstart
  obtain ⟨buf, hstore, hbuf⟩ := h1.terminate (List.length_take_le' 254 _) (Nat.lt_succ_of_le h)
  exact ⟨buf, hrun.trans hstore, hbuf⟩

theorem writeUri_token_none (hlen : (env.tokenPart dsId token).length = 66)
    (h : 255 < (uriStart uri dsId ++ env.tokenPart dsId token).length) : writeUri env uri dsId (some token) = none := by
  rw [List.length_append] at h
  by_cases hstart : (uriStart uri dsId).length ≤ 254
  · obtain ⟨buf1, h1, hrun⟩ := @writeUri_behind J uri dsId token env hlen hstart
    rw [hrun, List.length_append]
    refine store_none (Or.inr ?_)
    rw [h1.length, List.length_singleton]
    omega
  · obtain ⟨buf1, hformat, h1⟩ :=
      @snprintf_first (env.buffer 256) 256 255 (uriStart uri dsId) (length_buffer 256) (by decide) (by decide)
    rw [writeUri_some_token, hformat, Option.bind_some]
    dsimp only
    by_cases hone : (uriStart uri dsId).length = 255
    · -- no byte is left, and nothing is written but the NUL
      rw [formatted_eq (by omega), hone, HandshakeReq.snprintf, if_pos (by decide), Option.bind_some]
      refine store_none (Or.inr ?_)
      rw [h1.length, List.length_singleton, formatted_eq (by omega)]
      dsimp only
      omega
    · -- the size that is left has wrapped around
      have hwrite : snprintf buf1 (formatted (uriStart uri dsId)) (sizeOf (255 - formatted (uriStart uri dsId)))
          (env.tokenPart dsId token) = none := by
        have hout := @formatted_out 256 (uriStart uri dsId) (by omega)
        have hrange : -1 ≤ formatted (uriStart uri dsId) ∧ formatted (uriStart uri dsId) < 2147483648 := by
          unfold formatted
          split <;> omega
        have hsize : sizeOf (255 - formatted (uriStart uri dsId)) ≠ 0 := by
          unfold sizeOf
          omega
        rw [HandshakeReq.snprintf, if_neg hsize, store_none, Option.map_none]
        rw [h1.length, List.length_append, List.length_singleton]
        omega
      rw [hwrite, Option.bind_none]

/-! ## The parts of the URI -/

/-- No terminator, no separator of the lines and no '&'. -/
def Inert (c : UInt8) : Prop := c ≠ 0 ∧ c ≠ 32 ∧ c ≠ 13 ∧ c ≠ 10 ∧ c ≠ 38

instance : DecidablePred Inert := fun c => inferInstanceAs (Decidable (c ≠ 0 ∧ c ≠ 32 ∧ c ≠ 13 ∧ c ≠ 10 ∧ c ≠ 38))

theorem inert_escaped (c : UInt8) : Inert 37 ∧ Inert (encodeBase16 (charVal c / 16)) ∧
    Inert (encodeBase16 (charVal c % 16)) ∧ (¬Escaped c → Inert c) :=
  forall_byte (P := fun c => Inert 37 ∧ Inert (encodeBase16 (charVal c / 16)) ∧ Inert (encodeBase16 (charVal c % 16)) ∧
    (¬Escaped c → Inert c)) (by decide +kernel) c

theorem inert_escape (p : CString) : ∀ c ∈ dslinkStrEscape p, Inert c := by
  induction p with
  | nil => simp [dslinkStrEscape]
  | cons c p ih =>
    obtain ⟨hpercent, hhigh, hlow, hcopied⟩ := inert_escaped c
    by_cases hc : Escaped c
    · rw [escape_escaped hc]
      exact List.forall_mem_cons.mpr ⟨hpercent, List.forall_mem_cons.mpr ⟨hhigh, List.forall_mem_cons.mpr ⟨hlow, ih⟩⟩⟩
    · rw [escape_copied hc]
      exact List.forall_mem_cons.mpr ⟨hcopied hc, ih⟩

/-- A character of a hash is ASCII, stays as it is when it is escaped, and is no separator. -/
theorem encMap_char (v : Nat) : encMap v < 128 ∧ ¬Escaped (encMap v) ∧ Inert (encMap v) := by
  have hall : ∀ v < 64, encMap v < 128 ∧ ¬Escaped (encMap v) ∧ Inert (encMap v) := by decide +kernel
  rw [← encMap_mod]
  exact hall _ (Nat.mod_lt _ (by decide))

theorem encodeBytes_char (x : List UInt8) : ∀ c ∈ encodeBytes x, c < 128 ∧ ¬Escaped c ∧ Inert c := by
  have hmem : ∀ c ∈ encodeBytes x, ∃ v, c = encMap v := by
    induction x using encodeBytes.induct with
    | case1 c1 c2 c3 rest ih =>
      intro c hc
      simp only [encodeBytes, List.mem_cons] at hc
      rcases hc with rfl | rfl | rfl | rfl | hc
      · exact ⟨_, rfl⟩
      · exact ⟨_, rfl⟩
      · exact ⟨_, rfl⟩
      · exact ⟨_, rfl⟩
      · exact ih c hc
    | case2 c1 c2 =>
      intro c hc
      simp only [encodeBytes, List.mem_cons, List.not_mem_nil, or_false] at hc
      rcases hc with rfl | rfl | rfl <;> exact ⟨_, rfl⟩
    | case3 c1 =>
      intro c hc
      simp only [encodeBytes, List.mem_cons, List.not_mem_nil, or_false] at hc
      rcases hc with rfl | rfl <;> exact ⟨_, rfl⟩
    | case4 => simp [encodeBytes]
  intro c hc
  obtain ⟨v, rfl⟩ := hmem c hc
  exact encMap_char v

theorem escape_self {p : CString} (h : ∀ c ∈ p, ¬Escaped c) : dslinkStrEscape p = p := by
  induction p with
  | nil => rfl
  | cons c p ih =>
    obtain ⟨hc, hp⟩ := List.forall_mem_cons.mp h
    rw [escape_copied hc, ih hp]

/-- A hash of 32 bytes. -/
theorem length_hash {x : List UInt8} (h : x.length = 32) : (encodeBytes x).length = 43 := by
  rw [length_encodeBytes, h]
  rfl

theorem encode_hash {x : List UInt8} (h : x.length = 32) {dLen : Nat} (hd : 45 ≤ dLen) :
    (base64UrlEncode dLen x).ok = true ∧ (base64UrlEncode dLen x).text = encodeBytes x := by
  have hok : (base64UrlEncode dLen x).ok = true := by
    have hn : 32 / 3 + (if 32 % 3 ≠ 0 then 1 else 0) = 11 := rfl
    simp only [base64UrlEncode, h, hn]
    rw [if_neg (by decide), if_neg (by decide), if_neg (by omega)]
  exact ⟨hok, (encode_ok hok).1⟩

/-- SHA-256 gives 32 bytes, and the text of an object has no NUL. -/
structure Env.Lawful (env : Env J) : Prop where
  sha256 : ∀ bytes, (env.sha256 bytes).length = 32
  jsonDumps : ∀ object text, env.jsonDumps object = some text → 0 ∉ text

theorem prepare_spec (he : env.Lawful) (h : prepare env link = some (dsId, body)) :
    ∃ hash, dsId = link.name ++ 45 :: encodeBytes hash ∧ hash.length = 32 ∧ 0 ∉ body := by
  simp only [prepare, Option.bind_eq_bind] at h
  split at h
  · cases h
  obtain ⟨-, -, h⟩ := Option.bind_eq_some_iff.mp h
  obtain ⟨pubKeyBin, -, h⟩ := Option.bind_eq_some_iff.mp h
  split at h
  · cases h
  obtain ⟨-, -, h⟩ := Option.bind_eq_some_iff.mp h
  obtain ⟨text, hdumps, h⟩ := Option.bind_eq_some_iff.mp h
  obtain ⟨rfl, rfl⟩ := Prod.mk.inj (Option.some.inj h)
  refine ⟨env.sha256 pubKeyBin, ?_, he.sha256 _, he.jsonDumps _ _ hdumps⟩
  rw [Env.dsId, (encode_hash (he.sha256 _) (by decide)).2]

theorem tokenPart_eq (he : env.Lawful) (dsId token : CString) : ∃ hash, hash.length = 32 ∧
    env.tokenPart dsId token = cstr "&token=" ++ token.take 16 ++ encodeBytes hash :=
  ⟨_, he.sha256 _, congrArg _ (encode_hash (he.sha256 _) (by decide)).2⟩

theorem length_tokenPart (he : env.Lawful) (h : token.length = 48) : (env.tokenPart dsId token).length = 66 := by
  obtain ⟨hash, hlen, htoken⟩ := @tokenPart_eq J env he dsId token
  have hseven : (cstr "&token=").length = 7 := by decide
  rw [htoken, List.length_append, List.length_append, List.length_take, h, length_hash hlen, hseven]
  rfl

/-- The escaped dsId: that of the name, and the hash. -/
theorem escape_dsId (name hash : CString) :
    dslinkStrEscape (name ++ 45 :: encodeBytes hash) = dslinkStrEscape name ++ 45 :: encodeBytes hash := by
  rw [escape_append, escape_copied (by decide), escape_self fun c hc => (encodeBytes_char hash c hc).2.1]

theorem length_uriStart {hash : List UInt8} (hlen : hash.length = 32) (uri name : CString) :
    (uriStart uri (name ++ 45 :: encodeBytes hash)).length = uri.length + escapedLength name + 50 := by
  have hsix : (cstr "?dsId=").length = 6 := by decide
  have hname : (dslinkStrEscape name).length = escapedLength name := length_escape name
  simp only [uriStart, escape_dsId, List.length_append, List.length_cons, length_hash hlen, hsix, hname]
  omega

theorem length_target (he : env.Lawful) (htoken : ∀ t ∈ link.token, t.length = 48)
    (h : prepare env link = some (dsId, body)) : (target env link dsId).length = uriLength link := by
  obtain ⟨hash, rfl, hlen, -⟩ := prepare_spec he h
  have hstart := length_uriStart hlen (link.url.uri.getD []) link.name
  show (uriStart _ _ ++ link.token.elim [] _).length = _
  rw [List.length_append, hstart, uriLength]
  cases ht : link.token with
  | none => simp
  | some token =>
    have hpart := @length_tokenPart J (link.name ++ 45 :: encodeBytes hash) token env he (htoken token ht)
    simp [hpart, Nat.add_assoc]

theorem mem_cstr_dsId : ∀ c ∈ cstr "?dsId=", Inert c := by decide +kernel

theorem mem_cstr_token : ∀ c ∈ cstr "&token=", c ≠ 0 ∧ c ≠ 32 ∧ c ≠ 13 ∧ c ≠ 10 := by decide +kernel

/-- What holds of the other parts holds of the whole URI where it holds of the URL's and the token's part. -/
theorem forall_target {P : UInt8 → Prop} (hP : ∀ c, Inert c → P c) (hand : ∀ c ∈ cstr "&token=", P c) (he : env.Lawful) :
    (∀ c ∈ target env link dsId, P c) ↔ ∀ c ∈ link.url.uri.getD [] ++ (link.token.getD []).take 16, P c := by
  have hstart : (∀ c ∈ link.url.uri.getD [] ++ cstr "?dsId=" ++ dslinkStrEscape dsId, P c) ↔
      ∀ c ∈ link.url.uri.getD [], P c := by
    simp only [List.forall_mem_append]
    exact ⟨fun h => h.1.1, fun h => ⟨⟨h, fun c hc => hP c (mem_cstr_dsId c hc)⟩, fun c hc => hP c (inert_escape dsId c hc)⟩⟩
  rw [target, List.forall_mem_append, hstart, List.forall_mem_append]
  refine and_congr_right fun _ => ?_
  cases link.token with
  | none => simp
  | some token =>
    obtain ⟨hash, -, htoken⟩ := @tokenPart_eq J env he dsId token
    simp only [Option.elim_some, Option.getD_some, htoken, List.forall_mem_append]
    exact ⟨fun h => h.1.2, fun h => ⟨⟨hand, h⟩, fun c hc => hP c (encodeBytes_char hash c hc).2.2⟩⟩

theorem length_postReq (host : CString) (port : Nat) (len : Int) (body : CString) :
    (postReq uri host port len body).length =
      uri.length + host.length + (decimal port).length + (decimalInt len).length + body.length + 47 := by
  have h1 : (cstr "POST ").length = 5 := by decide
  have h2 : (cstr " HTTP/1.1\r\nHost: ").length = 17 := by decide
  have h3 : (cstr "\r\nContent-Length: ").length = 18 := by decide
  have h4 : (cstr "\r\n\r\n").length = 4 := by decide
  have h5 : (cstr "\r\n").length = 2 := by decide
  simp only [postReq, List.length_append, List.length_cons, h1, h2, h3, h4, h5]
  omega

theorem notMem_decimal (n : Nat) : 0 ∉ decimal n := by
  intro h
  exact (Url.isDigit_ne (Url.isDigit_decimal 0 h)).1 rfl

theorem notMem_postReq {host : CString} (huri : 0 ∉ uri) (hhost : 0 ∉ host) (hbody : 0 ∉ body) (port : Nat) (len : Int) :
    0 ∉ postReq uri host port len body := by
  have hlen : 0 ∉ decimalInt len := by
    unfold decimalInt
    split
    · simp [notMem_decimal]
    · exact notMem_decimal _
  have h1 : (0 : UInt8) ∉ cstr "POST " := by decide
  have h2 : (0 : UInt8) ∉ cstr " HTTP/1.1\r\nHost: " := by decide
  have h3 : (0 : UInt8) ∉ cstr "\r\nContent-Length: " := by decide
  have h4 : (0 : UInt8) ∉ cstr "\r\n\r\n" := by decide
  have h5 : (0 : UInt8) ∉ cstr "\r\n" := by decide
  simp only [postReq, List.mem_append, List.mem_cons, not_or]
  exact ⟨⟨⟨⟨⟨⟨⟨⟨h1, huri⟩, h2⟩, hhost⟩, by decide, notMem_decimal port⟩, h3⟩, hlen⟩, h4⟩, hbody⟩ |> fun h => ⟨h, h5⟩

theorem intOf_eq {n : Nat} (h : n < 2147483648) : intOf n = n := by
  unfold intOf
  omega

theorem decimalInt_natCast (n : Nat) : decimalInt n = decimal n := by
  rw [decimalInt, if_neg (by omega), Int.natAbs_natCast]

/-! ## The URL -/

theorem notMem_substringCopy {address copy : CString} {len : UInt8} (h : Url.substringCopy address len = some copy) :
    0 ∉ copy := by
  unfold Url.substringCopy at h
  split at h
  · obtain rfl := Option.some.inj h
    intro hmem
    simpa using List.mem_takeWhile_imp hmem
  · cases h

/-- The host of the scanner is a string. -/
def HostString (url : Url) : Prop := ∀ host ∈ url.host, 0 ∉ host

theorem hostString_handleScheme {url : Url} : HostString (Url.handleScheme url) ↔ HostString url := by
  unfold Url.handleScheme
  split
  · rfl
  · split <;> rfl

theorem hostString_forSecure {url : Url} : HostString (Url.handleSchemeForSecure url) ↔ HostString url := by
  unfold Url.handleSchemeForSecure
  split
  · rfl
  · split <;> rfl

theorem hostString_some {url : Url} {address host : CString} {len : UInt8} (h : Url.substringCopy address len = some host)
    (hurl : url.host = some host) : HostString url := by
  rintro _ hmem
  obtain rfl := Option.some.inj (hurl.symm.trans hmem)
  exact notMem_substringCopy h

theorem hostString_body {wide : Bool} {s s' : Url.Scan} (h : Url.body wide s = some s') (hs : HostString s.url) :
    HostString s'.url := by
  unfold Url.body at h
  split at h
  · obtain ⟨scheme, -, h⟩ := Option.bind_eq_some_iff.mp h
    obtain ⟨r, -, h⟩ := Option.bind_eq_some_iff.mp h
    obtain rfl := Option.some.inj h
    exact hostString_forSecure.mpr hs
  split at h
  · obtain ⟨host, hcopy, h⟩ := Option.bind_eq_some_iff.mp h
    split at h
    · obtain rfl := Option.some.inj h
      exact hostString_some hcopy rfl
    · obtain rfl := Option.some.inj h
      exact hostString_handleScheme.mpr (hostString_some hcopy rfl)
  split at h
  · obtain ⟨num, -, h⟩ := Option.bind_eq_some_iff.mp h
    obtain rfl := Option.some.inj h
    exact hs
  split at h
  · obtain ⟨host, hcopy, h⟩ := Option.bind_eq_some_iff.mp h
    obtain ⟨c, -, h⟩ := Option.bind_eq_some_iff.mp h
    split at h
    · obtain rfl := Option.some.inj h
      exact hostString_some hcopy rfl
    · obtain rfl := Option.some.inj h
      exact hostString_handleScheme.mpr (hostString_some hcopy rfl)
  · obtain rfl := Option.some.inj h
    exact hs

theorem hostString_loop {wide : Bool} {fuel : Nat} {s s' : Url.Scan} (h : Url.loop wide fuel s = some s')
    (hs : HostString s.url) : HostString s'.url := by
  induction fuel generalizing s with
  | zero =>
    unfold Url.loop at h
    split at h
    · exact Option.some.inj h ▸ hs
    · cases h
  | succ fuel ih =>
    unfold Url.loop at h
    split at h
    · exact Option.some.inj h ▸ hs
    · obtain ⟨t, hround, h⟩ := Option.bind_eq_some_iff.mp h
      obtain ⟨r, hbody, hround⟩ := Option.bind_eq_some_iff.mp hround
      obtain ⟨c, -, rfl⟩ := Option.map_eq_some_iff.mp hround
      have hr : HostString r.url := hostString_body hbody hs
      exact ih h hr

/-- The parts of an URL that was accepted: strings, and its URI is not NULL. -/
theorem parsed_strings {wide : Bool} {fuel : Nat} {address : CString} {url : Url}
    (h : Url.dslinkUrlParse wide fuel address = some (some url)) :
    (∃ uri, url.uri = some uri ∧ 0 ∉ uri) ∧ HostString url := by
  obtain ⟨s, hloop, hfinish⟩ := Option.bind_eq_some_iff.mp h
  have hs : HostString s.url := hostString_loop hloop (by rintro _ ⟨⟩)
  have hslash : (0 : UInt8) ∉ [slash] := by decide
  unfold Url.finish at hfinish
  split at hfinish
  · cases hfinish
  · split at hfinish
    · cases hfinish
    · obtain ⟨host, hcopy, hurl⟩ := Option.map_eq_some_iff.mp hfinish
      obtain rfl := Option.some.inj hurl
      exact ⟨⟨_, rfl, hslash⟩, hostString_some hcopy rfl⟩
  · obtain rfl := Option.some.inj (Option.some.inj hfinish)
    refine ⟨⟨[slash], ?_, hslash⟩, hostString_handleScheme.mpr hs⟩
    unfold Url.handleScheme
    split
    · rfl
    · split <;> rfl
  all_goals
    split at hfinish
    · obtain rfl := Option.some.inj (Option.some.inj hfinish)
      exact ⟨⟨_, rfl, hslash⟩, hs⟩
    · obtain ⟨uri, hcopy, hurl⟩ := Option.map_eq_some_iff.mp hfinish
      obtain rfl := Option.some.inj hurl
      exact ⟨⟨_, rfl, notMem_substringCopy hcopy⟩, hs⟩

/-! ## The first parameter -/

variable {p q v seg : CString} {c : UInt8}

/-- What is behind a character that belongs to no escape is unescaped by itself. -/
theorem length_unescape_append (hc : c ≠ 37) (hhex : ¬IsHex c) (y : CString) :
    (dslinkStrUnescape v).length < (dslinkStrUnescape (y ++ c :: v)).length := by
  generalize ht : y ++ c :: v = t
  induction t using dslinkStrUnescape.induct generalizing y with
  | case1 c1 c2 rest hdigits ih =>
    rw [dslinkStrUnescape, if_pos hdigits]
    rcases y with _ | ⟨_, _ | ⟨_, _ | ⟨_, y⟩⟩⟩
    · exact absurd (List.cons.inj ht).1 hc
    · obtain ⟨-, rfl, -⟩ := by simpa using ht
      exact absurd hdigits.1 hhex
    · obtain ⟨-, -, rfl, -⟩ := by simpa using ht
      exact absurd hdigits.2 hhex
    · have hrest : y ++ c :: v = rest := by simpa using (List.cons.inj (List.cons.inj (List.cons.inj ht).2).2).2
      exact Nat.lt_succ_of_lt (ih y hrest)
  | case2 c1 c2 rest hdigits ih =>
    rw [dslinkStrUnescape, if_neg hdigits]
    cases y with
    | nil => exact absurd (List.cons.inj ht).1 hc
    | cons d y => exact Nat.lt_succ_of_lt (ih y (List.cons.inj ht).2)
  | case3 d rest hne ih =>
    rw [dslinkStrUnescape]
    · cases y with
      | nil =>
        obtain ⟨-, rfl⟩ := List.cons.inj ht
        exact Nat.lt_succ_self _
      | cons d y => exact Nat.lt_succ_of_lt (ih y (List.cons.inj ht).2)
    · exact hne
  | case4 => simp at ht

theorem length_le_unescape_escape (p : CString) : p.length ≤ (dslinkStrUnescape (dslinkStrEscape p)).length := by
  induction p with
  | nil => exact Nat.zero_le _
  | cons c p ih =>
    by_cases hc : c < 128
    · rw [unescape_escape_ascii hc]
      exact Nat.succ_le_succ ih
    · -- the two characters behind the '%' are copied
      have hno : ¬(-1 < decodeBase16 255 ∧ -1 < decodeBase16 (encodeBase16 (charVal c % 16))) := fun h =>
        absurd h.1 (by decide)
      have hlow : encodeBase16 (charVal c % 16) ≠ 37 :=
        forall_byte (P := fun c => encodeBase16 (charVal c % 16) ≠ 37) (by decide +kernel) c
      rw [escape_escaped (escaped_of_le hc), encode_high hc, dslinkStrUnescape, if_neg hno, unescape_other (by decide),
        unescape_other hlow]
      simp only [List.length_cons]
      omega

/-- A text that is empty or begins with '&'. -/
def Parted (more : CString) : Prop := more = [] ∨ ∃ rest, more = 38 :: rest

/-- The first parameter is the one up to the first '&'. -/
theorem head_params {more : CString} (hp : 63 ∉ p) (hseg : 38 ∉ seg) (hne : seg ++ more ≠ []) (hmore : Parted more) :
    (brokerHttpParseUri (p ++ 63 :: (seg ++ more))).params.head? = some (keyValue seg) := by
  have hparams : (brokerHttpParseUri (p ++ 63 :: (seg ++ more))).params = uriParams 8 (seg ++ more) := by
    rw [brokerHttpParseUri, strstr_sep hp]
    rfl
  rw [hparams]
  rcases hmore with rfl | ⟨rest, rfl⟩
  · rw [List.append_nil] at hne ⊢
    rw [uriParams_none hseg, if_neg hne]
    rfl
  · rw [uriParams_sep hseg]
    rfl

theorem key_dsId (v : CString) : keyValue (cstr "dsId=" ++ v) = (cstr "dsId", some v) := by
  have hkey : (61 : UInt8) ∉ cstr "dsId" := by decide
  exact @keyValue_sep (cstr "dsId") v hkey

/-- A segment with the key dsId. -/
theorem eq_of_key_dsId (h : keyValue seg = (cstr "dsId", some v)) : seg = cstr "dsId=" ++ v := by
  rcases sep_cases 61 seg with hno | ⟨k, w, rfl, hk⟩
  · rw [keyValue_none hno] at h
    cases h
  · rw [keyValue_sep hk] at h
    obtain ⟨rfl, hw⟩ := Prod.mk.inj h
    obtain rfl := Option.some.inj hw
    rfl

/-- **The parameter.** The first parameter of the whole URI is the dsId if the URL has no '?' and the dsId is ASCII, or
    if the URL had it already. -/
theorem firstParam_iff {more : CString} (hmore : Parted more) (uri dsId : CString) :
    (∃ v, (brokerHttpParseUri (uri ++ cstr "?dsId=" ++ dslinkStrEscape dsId ++ more)).params.head? =
        some (cstr "dsId", some v) ∧ dslinkStrUnescape v = dsId) ↔
      63 ∉ uri ∧ Ascii dsId ∨ GivenFirst uri dsId := by
  have hescape : 38 ∉ dslinkStrEscape dsId := fun h => (inert_escape dsId 38 h).2.2.2.2 rfl
  have hname : (38 : UInt8) ∉ cstr "dsId=" := by decide
  have hfive : cstr "?dsId=" = 63 :: cstr "dsId=" := rfl
  rcases sep_cases 63 uri with hno | ⟨resource, query, rfl, hresource⟩
  · have htarget : uri ++ cstr "?dsId=" ++ dslinkStrEscape dsId ++ more =
        uri ++ 63 :: (cstr "dsId=" ++ dslinkStrEscape dsId ++ more) := by simp [hfive]
    have hgiven : ¬GivenFirst uri dsId := by
      rintro ⟨resource, v, rest, rfl, -⟩
      exact hno (by simp [hfive])
    rw [htarget, head_params hno (by simp [hname, hescape]) (by simp [cstr]) hmore, key_dsId, or_iff_left hgiven,
      and_iff_right hno, ← unescape_escape_eq_self]
    constructor
    · rintro ⟨v, hv, hback⟩
      obtain rfl := Option.some.inj (Prod.mk.inj (Option.some.inj hv)).2
      exact hback
    · exact fun hback => ⟨_, rfl, hback⟩
  · have hmem : 63 ∈ resource ++ 63 :: query := by simp
    rw [or_iff_right fun h => h.1 hmem]
    rcases sep_cases 38 query with hno | ⟨first, rest, rfl, hfirst⟩
    · -- the end of the URL and the dsId are one parameter
      have htarget : resource ++ 63 :: query ++ cstr "?dsId=" ++ dslinkStrEscape dsId ++ more =
          resource ++ 63 :: (query ++ cstr "?dsId=" ++ dslinkStrEscape dsId ++ more) := by simp
      rw [htarget, head_params hresource (by simp [hno, hfive, hname, hescape]) (by simp [hfive]) hmore]
      refine iff_of_false ?_ ?_
      · rintro ⟨v, hv, hback⟩
        have hseg := eq_of_key_dsId (Option.some.inj hv)
        have hlast : query ++ cstr "?dsId=" ++ dslinkStrEscape dsId = query ++ cstr "?dsId" ++ 61 :: dslinkStrEscape dsId := by
          simp [cstr]
        have hlen : (cstr "dsId=").length ≤ (query ++ cstr "?dsId").length := by simp [cstr]
        have hvalue : v = (query ++ cstr "?dsId").drop (cstr "dsId=").length ++ 61 :: dslinkStrEscape dsId := by
          rw [← List.drop_append_of_le_length hlen, ← hlast, hseg, List.drop_left]
        have hlonger := @length_unescape_append (dslinkStrEscape dsId) 61 (by decide) (by decide)
          ((query ++ cstr "?dsId").drop (cstr "dsId=").length)
        rw [← hvalue, hback] at hlonger
        exact absurd hlonger (Nat.not_lt.mpr (length_le_unescape_escape dsId))
      · rintro ⟨resource', v, rest, huri, hresource', -, -⟩
        have hsplit : resource' ++ cstr "?dsId=" ++ v ++ 38 :: rest = resource' ++ 63 :: (cstr "dsId=" ++ v ++ 38 :: rest) := by
          simp [hfive]
        rw [hsplit] at huri
        obtain ⟨-, rfl⟩ := sep_inj hresource hresource' huri
        exact hno (by simp)
    · have htarget : resource ++ 63 :: (first ++ 38 :: rest) ++ cstr "?dsId=" ++ dslinkStrEscape dsId ++ more =
          resource ++ 63 :: (first ++ 38 :: (rest ++ cstr "?dsId=" ++ dslinkStrEscape dsId ++ more)) := by simp
      rw [htarget, head_params hresource hfirst (by simp) (Or.inr ⟨_, rfl⟩)]
      constructor
      · rintro ⟨v, hv, hback⟩
        obtain rfl := eq_of_key_dsId (Option.some.inj hv)
        refine ⟨resource, v, rest, by simp [hfive], hresource, fun h => hfirst (List.mem_append_right _ h), hback⟩
      · rintro ⟨resource', v, rest', huri, hresource', hv, hback⟩
        have hsplit : resource' ++ cstr "?dsId=" ++ v ++ 38 :: rest' =
            resource' ++ 63 :: (cstr "dsId=" ++ v ++ 38 :: rest') := by simp [hfive]
        rw [hsplit] at huri
        obtain ⟨-, hquery⟩ := sep_inj hresource hresource' huri
        obtain ⟨rfl, -⟩ := sep_inj hfirst (by simp [hname, hv]) hquery
        exact ⟨v, congrArg some (key_dsId v), hback⟩

/-! ## The whole function -/

theorem writeUri_target (he : env.Lawful) (htoken : ∀ t ∈ link.token, t.length = 48) (huri : link.url.uri = some uri)
    (h : (target env link dsId).length ≤ 255) :
    ∃ buf, writeUri env uri dsId link.token = some buf ∧ Holds buf 256 ((target env link dsId).take 254) := by
  unfold target at h ⊢
  rw [huri] at h ⊢
  cases ht : link.token with
  | none =>
    rw [ht, Option.elim_none, List.append_nil] at h
    rw [Option.elim_none, List.append_nil]
    exact writeUri_plain h
  | some token =>
    rw [ht] at h
    exact writeUri_token (length_tokenPart he (htoken token ht)) h

theorem writeUri_target_none (he : env.Lawful) (htoken : ∀ t ∈ link.token, t.length = 48)
    (huri : link.url.uri = some uri) (h : 255 < (target env link dsId).length) :
    writeUri env uri dsId link.token = none := by
  unfold target at h
  rw [huri] at h
  cases ht : link.token with
  | none =>
    rw [ht, Option.elim_none, List.append_nil] at h
    exact writeUri_plain_none h
  | some token =>
    rw [ht] at h
    exact writeUri_token_none (length_tokenPart he (htoken token ht)) h

/-- The request that is formatted, with the URI that is in its buffer. -/
def formattedReq (env : Env J) (link : Link J) (dsId host body : CString) : CString :=
  postReq ((target env link dsId).take 254) host link.url.port (intOf body.length) body

theorem generate_iff (he : env.Lawful) (htoken : ∀ t ∈ link.token, t.length = 48) (huri : link.url.uri = some uri)
    (h0 : 0 ∉ target env link dsId) (hhost0 : HostString link.url) (h : prepare env link = some (dsId, body))
    {result : Option (CString × CString)} :
    dslinkHandshakeGenerateReq env link = some result ↔ ∃ host, link.url.host = some host ∧
      (target env link dsId).length ≤ 255 ∧ (formattedReq env link dsId host body).length ≤ 511 ∧
      result = some ((formattedReq env link dsId host body).take 510, dsId) := by
  have hrun : dslinkHandshakeGenerateReq env link = (writeUri env uri dsId link.token).bind fun buf =>
      (cString buf).bind fun target => link.url.host.bind fun host =>
        (writeReq env (postReq target host link.url.port (intOf body.length) body)).bind fun req =>
          (cString req).bind fun text => some (some (text, dsId)) := by
    unfold dslinkHandshakeGenerateReq
    rw [h, huri]
    rfl
  obtain ⟨-, -, -, hbody⟩ := prepare_spec he h
  by_cases hlen : (target env link dsId).length ≤ 255
  · obtain ⟨buf, hwrite, hbuf⟩ := writeUri_target he htoken huri hlen
    have hcut : 0 ∉ (target env link dsId).take 254 := fun hm => h0 (List.mem_of_mem_take hm)
    rw [hrun, hwrite, Option.bind_some, hbuf.cString hcut, Option.bind_some]
    cases hhost : link.url.host with
    | none => simp
    | some host =>
      rw [Option.bind_some]
      show (writeReq env (formattedReq env link dsId host body)).bind _ = _ ↔ _
      have hreq0 : 0 ∉ formattedReq env link dsId host body := notMem_postReq hcut (hhost0 host hhost) hbody _ _
      by_cases hreq : (formattedReq env link dsId host body).length ≤ 511
      · obtain ⟨req, hwrite, hreqbuf⟩ := @writeReq_some J (formattedReq env link dsId host body) env hreq
        rw [hwrite, Option.bind_some, hreqbuf.cString fun hm => hreq0 (List.mem_of_mem_take hm), Option.bind_some]
        constructor
        · intro hresult
          exact ⟨host, rfl, hlen, hreq, (Option.some.inj hresult).symm⟩
        · rintro ⟨host', hsame, -, -, rfl⟩
          obtain rfl := Option.some.inj hsame
          rfl
      · rw [writeReq_none (Nat.lt_of_not_le hreq)]
        simp [hreq]
  · rw [hrun, writeUri_target_none he htoken huri (Nat.lt_of_not_le hlen)]
    simp [hlen]

/-- Nothing is cut off exactly if both texts have room. -/
theorem whole_iff (he : env.Lawful) (htoken : ∀ t ∈ link.token, t.length = 48) (h : prepare env link = some (dsId, body))
    (host : CString) :
    ((target env link dsId).length ≤ 255 ∧ (formattedReq env link dsId host body).length ≤ 511 ∧
      (formattedReq env link dsId host body).take 510 =
        postReq (target env link dsId) host link.url.port body.length body) ↔
      uriLength link ≤ 254 ∧ reqLength link host body ≤ 510 := by
  have huri := length_target he htoken h
  have hreq : (formattedReq env link dsId host body).length = min 254 (uriLength link) + host.length +
      (decimal link.url.port).length + (decimalInt (intOf body.length)).length + body.length + 47 := by
    rw [formattedReq, length_postReq, List.length_take, huri]
  have hfull : (postReq (target env link dsId) host link.url.port body.length body).length = reqLength link host body := by
    rw [length_postReq, huri, decimalInt_natCast, reqLength]
  constructor
  · rintro ⟨hle, hle', heq⟩
    have hbody : intOf body.length = body.length := intOf_eq (by omega)
    have hlen : min 510 (formattedReq env link dsId host body).length = reqLength link host body := by
      rw [← List.length_take, heq, hfull]
    rw [hbody, decimalInt_natCast] at hreq
    have hsum : reqLength link host body = uriLength link + host.length + (decimal link.url.port).length +
      (decimal body.length).length + body.length + 47 := rfl
    rw [hreq] at hle' hlen
    rw [hsum] at hlen ⊢
    generalize (decimal link.url.port).length = port, (decimal body.length).length = digits at hle' hlen ⊢
    clear hreq hfull hsum heq
    omega
  · rintro ⟨hle, hle'⟩
    have hbody : intOf body.length = body.length := by
      refine intOf_eq ?_
      unfold reqLength at hle'
      omega
    have hsame : formattedReq env link dsId host body =
        postReq (target env link dsId) host link.url.port body.length body := by
      rw [formattedReq, hbody, List.take_of_length_le (by omega)]
    rw [hsame, hfull]
    exact ⟨by omega, by omega, List.take_of_length_le (by rw [hfull]; exact hle')⟩

theorem ascii_dsId (name hash : CString) : Ascii (name ++ 45 :: encodeBytes hash) ↔ Ascii name := by
  have hhash : Ascii (45 :: encodeBytes hash) :=
    ascii_cons.mpr ⟨by decide, fun c hc => (encodeBytes_char hash c hc).1⟩
  unfold Ascii at hhash ⊢
  rw [List.forall_mem_append]
  exact and_iff_left hhash

theorem parted_token (he : env.Lawful) (dsId : CString) (token : Option CString) :
    Parted (token.elim [] (env.tokenPart dsId)) := by
  cases token with
  | none => exact Or.inl rfl
  | some token =>
    obtain ⟨hash, -, htoken⟩ := @tokenPart_eq J env he dsId token
    exact Or.inr ⟨_, htoken⟩

/-- A request that is complete. -/
theorem complete_iff (he : env.Lawful) (htoken : ∀ t ∈ link.token, t.length = 48)
    (h : prepare env link = some (dsId, body)) :
    (∃ host, link.url.host = some host ∧ (target env link dsId).length ≤ 255 ∧
      (formattedReq env link dsId host body).length ≤ 511 ∧
      Complete env link dsId body ((formattedReq env link dsId host body).take 510)) ↔ Fits link dsId body := by
  obtain ⟨hash, hdsId, -, -⟩ := prepare_spec he h
  have hline := @forall_target J dsId env link (fun c => c ≠ 32 ∧ c ≠ 13 ∧ c ≠ 10) (fun c hc => ⟨hc.2.1, hc.2.2.1, hc.2.2.2.1⟩)
    (fun c hc => (mem_cstr_token c hc).2) he
  have hfirst := firstParam_iff (parted_token he dsId link.token) (link.url.uri.getD []) dsId
  have hascii : Ascii dsId ↔ Ascii link.name := hdsId ▸ ascii_dsId link.name hash
  rw [hascii] at hfirst
  constructor
  · rintro ⟨host, hhost, hle, hle', ⟨host', hsome, hcr, hlf, heq⟩, hplain, hparam⟩
    obtain rfl : host = host' := Option.some.inj (hhost.symm.trans hsome)
    obtain ⟨huri, hreq⟩ := (whole_iff he htoken h host).mp ⟨hle, hle', heq⟩
    exact ⟨⟨host, hhost, hcr, hlf, hreq⟩, huri, hline.mp hplain, hfirst.mp hparam⟩
  · rintro ⟨⟨host, hhost, hcr, hlf, hreq⟩, huri, hplain, hparam⟩
    obtain ⟨hle, hle', heq⟩ := (whole_iff he htoken h host).mpr ⟨huri, hreq⟩
    exact ⟨host, hhost, hle, hle', ⟨host, hhost, hcr, hlf, heq⟩, hline.mpr hplain, hfirst.mpr hparam⟩

/-- **The handshake request.** For every name, link data, token of 48 characters and URL that was accepted, the function
    writes inside of its buffers and returns NULL or a complete request exactly if a call before the formatting fails
    or the parts fit. -/
theorem handshake_req_exact {env : Env J} (he : env.Lawful) {link : Link J}
    (htoken : ∀ t ∈ link.token, t.length = 48 ∧ 0 ∉ t) {wide : Bool} {fuel : Nat} {address : CString}
    (hurl : Url.dslinkUrlParse wide fuel address = some (some link.url)) :
    Sound env link ↔ ∀ dsId body, prepare env link = some (dsId, body) → Fits link dsId body := by
  obtain ⟨⟨uri, huri, huri0⟩, hhost0⟩ := parsed_strings hurl
  have htoken48 : ∀ t ∈ link.token, t.length = 48 := fun t ht => (htoken t ht).1
  cases hprepare : prepare env link with
  | none =>
    refine iff_of_true ⟨none, ?_, fun _ _ hnone => by cases hnone⟩ fun _ _ hnone => by cases hnone
    unfold dslinkHandshakeGenerateReq
    rw [hprepare]
  | some prepared =>
    obtain ⟨dsId, body⟩ := prepared
    have h0 : 0 ∉ target env link dsId := by
      have hall : ∀ c ∈ link.url.uri.getD [] ++ (link.token.getD []).take 16, c ≠ 0 := by
        intro c hc
        rcases List.mem_append.mp hc with hc | hc
        · rw [huri] at hc
          exact ne_of_mem_of_not_mem hc huri0
        · cases ht : link.token with
          | none => simp [ht] at hc
          | some token =>
            rw [ht] at hc
            exact ne_of_mem_of_not_mem (List.mem_of_mem_take hc) (htoken token ht).2
      exact fun hm => (forall_target (P := fun c => c ≠ 0) (fun c hc => hc.1) (fun c hc => (mem_cstr_token c hc).1) he).mpr
        hall 0 hm rfl
    have hgenerate := fun result => @generate_iff J uri dsId body env link he htoken48 huri h0 hhost0 hprepare result
    have hfits := complete_iff he htoken48 hprepare
    constructor
    · rintro ⟨result, hrun, hcomplete⟩ _ _ hsame
      obtain ⟨rfl, rfl⟩ := Prod.mk.inj (Option.some.inj hsame)
      obtain ⟨host, hhost, hle, hle', rfl⟩ := (hgenerate result).mp hrun
      obtain ⟨body', hbody', hc⟩ := hcomplete _ _ rfl
      obtain rfl : body' = body := (Prod.mk.inj (Option.some.inj (hbody'.symm.trans hprepare))).2
      exact hfits.mp ⟨host, hhost, hle, hle', hc⟩
    · intro hfit
      obtain ⟨host, hhost, hle, hle', hc⟩ := hfits.mpr (hfit dsId body rfl)
      refine ⟨_, (hgenerate _).mpr ⟨host, hhost, hle, hle', rfl⟩, fun text dsId' hsome => ?_⟩
      obtain ⟨rfl, rfl⟩ := Prod.mk.inj (Option.some.inj hsome)
      exact ⟨body, hprepare, hc⟩

/-- The base point of the group, which is the public key of the private number 1. -/
def basePoint : List UInt8 :=
  [4, 107, 23, 209, 242, 225, 44, 66, 71, 248, 188, 230, 229, 99, 164, 64, 242, 119, 3, 125, 129, 45, 235, 51, 160, 244,
    161, 57, 69, 216, 152, 194, 150, 79, 227, 66, 226, 254, 26, 127, 155, 142, 231, 235, 74, 124, 15, 158, 22, 43, 206, 51,
    87, 107, 49, 94, 206, 203, 182, 64, 104, 55, 191, 81, 245]

/-- Its SHA-256. -/
def baseHash : List UInt8 :=
  [105, 139, 234, 99, 220, 68, 163, 68, 102, 63, 241, 66, 154, 234, 16, 132, 45, 242, 123, 107, 153, 30, 242, 88, 102, 178,
    198, 192, 44, 220, 197, 190]

/-- The text of the body for that key, with the flags of a requester and responder. -/
def baseBody : CString :=
  cstr "\x7b\n  \"publicKey\": \"BGsX0fLhLEJH-Lzm5WOkQPJ3A32BLeszoPShOUXYmMKWT-NC4v4af5uO5-tKfA-eFivOM1drMV7Oy7ZAaDe_UfU\"" ++
    cstr ",\n  \"isRequester\": true,\n  \"isResponder\": true,\n  \"version\": \"1.1.2\"\n\x7d"

/-- The world of a link with that key. -/
def baseEnv : Env Unit where
  ecpPointWriteBinary := some basePoint
  sha256 := fun _ => baseHash
  jsonDumps := fun _ => some baseBody
  mallocReq := true
  mallocDsId := true
  junk := fun _ => 65

/-- A link with that name and no token, for `http://localhost:8080/conn`. -/
def baseLink (name : CString) : Link Unit :=
  ⟨name, true, true, none, none, ⟨false, 8080, some (cstr "http"), some (cstr "localhost"), some (cstr "/conn")⟩⟩

/-- What the functions compute in that world, for a short name and for one of 201 letters. -/
theorem base_runs : 0 ∉ baseBody ∧
    Url.dslinkUrlParse true 40 (cstr "http://localhost:8080/conn") = some (some (baseLink []).url) ∧
    (prepare baseEnv (baseLink (cstr "dslink"))).map Prod.snd = some baseBody ∧
    reqLength (baseLink (cstr "dslink")) (cstr "localhost") baseBody ≤ 510 ∧
    (prepare baseEnv (baseLink (List.replicate 201 97))).isSome ∧
    dslinkHandshakeGenerateReq baseEnv (baseLink (List.replicate 201 97)) = none := by decide +kernel

theorem baseEnv_lawful : baseEnv.Lawful where
  sha256 := fun _ => rfl
  jsonDumps := by
    rintro object text htext
    obtain rfl := Option.some.inj htext
    exact base_runs.1

theorem baseLink_accepted (name : CString) :
    Url.dslinkUrlParse true 40 (cstr "http://localhost:8080/conn") = some (some (baseLink name).url) :=
  base_runs.2.1

theorem handshake_req_exact_dslink : Sound baseEnv (baseLink (cstr "dslink")) := by
  refine (handshake_req_exact baseEnv_lawful (by rintro _ ⟨⟩) (baseLink_accepted _)).mpr fun dsId body h => ?_
  obtain ⟨-, -, hprepare, hreq, -⟩ := base_runs
  rw [h] at hprepare
  obtain rfl := Option.some.inj hprepare
  refine ⟨⟨cstr "localhost", rfl, ?_, ?_, hreq⟩, ?_, ?_, Or.inl ⟨?_, ?_⟩⟩ <;> decide +kernel

/-- For a name of 201 letters the NUL is written behind the URI's buffer. -/
theorem long_name_overruns : Url.dslinkUrlParse true 40 (cstr "http://localhost:8080/conn") =
      some (some (baseLink (List.replicate 201 97)).url) ∧
    (prepare baseEnv (baseLink (List.replicate 201 97))).isSome ∧
    dslinkHandshakeGenerateReq baseEnv (baseLink (List.replicate 201 97)) = none ∧
    ¬Sound baseEnv (baseLink (List.replicate 201 97)) := by
  obtain ⟨-, -, -, -, hsome, hnone⟩ := base_runs
  refine ⟨baseLink_accepted _, hsome, hnone, ?_⟩
  rintro ⟨result, hrun, -⟩
  rw [hnone] at hrun
  cases hrun

end DSLink.HandshakeReq
