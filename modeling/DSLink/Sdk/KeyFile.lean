import DSLink.Sdk.Base64RoundTrip
import DSLink.Lib.Tails

/-!
# `Sdk.KeyFile` — `dslink_handshake_store_key_pair` and `dslink_handshake_read_key_pair`

The private number and the public point of a link stand in its key file as base64url with a space between them. The
terminator is written behind the size that the room was checked for.

## Contents
- `Mbedtls`, `ReadsBack`: what the two functions take from mbedtls.
- `encodePubKey`, `storeKeyPair`, `readKeyPair`.
- `key_file_exact`.
-/

namespace DSLink.KeyFile

open Base64

/-- The binary forms of private numbers and of points of the group. A point is written uncompressed. -/
structure Mbedtls (D Q : Type) where
  mpiWriteBinary : D → Nat → Option (List UInt8)
  mpiReadBinary : List UInt8 → Option D
  ecpPointWriteBinary : Q → Nat → Option (List UInt8)
  ecpPointReadBinary : List UInt8 → Option Q

/-- The errors that are returned. -/
inductive KeyError
  | keyEncode
  | base64UrlEncode
  | bufTooSmall
  | keyDecode
  | base64UrlDecode

variable {D Q α : Type} (mbed : Mbedtls D Q)

/-! ## The two functions -/

/-- `dslink_handshake_encode_pub_key`, with the text in `buf`. -/
def encodePubKey (q : Q) (bufLen : Nat) : Except KeyError CString :=
  match mbed.ecpPointWriteBinary q 65 with
  | none => .error .keyEncode
  | some pubKeyBin =>
    let encoded := base64UrlEncode bufLen pubKeyBin
    if encoded.ok then .ok encoded.text else .error .base64UrlEncode

/-- `dslink_handshake_store_key_pair` into a buffer of `bufLen` bytes: the size that is returned, and the bytes from
    `buf` on that were written. -/
def storeKeyPair (d : D) (q : Q) (bufLen : Nat) : Except KeyError (Nat × List UInt8) :=
  match mbed.mpiWriteBinary d 33 with
  | none => .error .keyEncode
  | some dBin =>
    let dEnc := base64UrlEncode 45 dBin
    if dEnc.ok = false then .error .base64UrlEncode
    else
      match encodePubKey mbed q 90 with
      | .error e => .error e
      | .ok qEnc =>
        let bufSize := dEnc.text.length + qEnc.length + 1
        if bufLen < bufSize then .error .bufTooSmall
        else .ok (bufSize, dEnc.text ++ 32 :: (qEnc ++ [0]))

/-- One of the two texts is decoded into `dec`, which has 90 bytes, and read by mbedtls. There is no result where bytes
    are read that were not written. -/
def readPart (read : List UInt8 → Option α) (dec src : List UInt8) (sLen : Nat) :
    Option (Except KeyError (List UInt8 × α)) :=
  (base64UrlDecode 90 src sLen).bind fun decoded =>
    if decoded.code ≠ .ok then some (.error .base64UrlDecode)
    else
      let dec := decoded.written ++ dec.drop decoded.written.length
      decoded.oLen.bind fun decLen =>
        if dec.length < decLen then none
        else
          match read (dec.take decLen) with
          | none => some (.error .keyDecode)
          | some value => some (.ok (dec, value))

/-- `dslink_handshake_read_key_pair` on the memory from `buf` on, with the number and the point in `ctx`. -/
def readKeyPair (buf : List UInt8) : Option (Except KeyError (D × Q)) :=
  if 0 ∉ buf then none
  else
    let text := buf.takeWhile (· ≠ 0)
    let len := (text.takeWhile (· ≠ 32)).length
    if text.length ≤ len + 1 then some (.error .keyDecode)
    else
      (readPart mbed.mpiReadBinary [] buf len).bind fun
        | .error e => some (.error e)
        | .ok (dec, d) =>
          (readPart mbed.ecpPointReadBinary dec (buf.drop (len + 1)) (text.length - len - 1)).map fun
            | .error e => .error e
            | .ok (_, q) => .ok (d, q)

/-! ## The round trip -/

/-- Mbedtls reads back what it writes of a key pair: the number in the 33 bytes that it is given, the point in 65. -/
structure Mbedtls.ReadsBack (mbed : Mbedtls D Q) (d : D) (q : Q) : Prop where
  number : ∃ bin, mbed.mpiWriteBinary d 33 = some bin ∧ bin.length = 33 ∧ mbed.mpiReadBinary bin = some d
  point : ∃ bin, mbed.ecpPointWriteBinary q 65 = some bin ∧ bin.length = 65 ∧ mbed.ecpPointReadBinary bin = some q

/-- If the key pair is stored, that takes no more than `bufLen` bytes, and reading it gives it back. -/
def RoundTrips (d : D) (q : Q) (bufLen : Nat) : Prop :=
  ∀ size written, storeKeyPair mbed d q bufLen = .ok (size, written) →
    written.length ≤ bufLen ∧ ∀ after, readKeyPair mbed (written ++ after) = some (.ok (d, q))

variable {mbed} {d : D} {q : Q} {x dBin qBin dec after : List UInt8} {b : UInt8} {dLen bufLen : Nat}

theorem mem_encodeBytes (h : b ∈ encodeBytes x) : b ≠ 0 ∧ b ≠ 32 := by
  have hchar : ∀ v, encMap v ≠ 0 ∧ encMap v ≠ 32 := by
    intro v
    rw [← encMap_mod]
    obtain ⟨hmap, -, -, h32, -⟩ := encMap_spec (v % 64) (Nat.mod_lt v (by decide))
    refine ⟨fun h0 => ?_, h32⟩
    -- the terminator is not in the alphabet
    rw [h0] at hmap
    have hlt := Nat.mod_lt v (by decide : 0 < 64)
    have h127 : 127 = v % 64 := Option.some.inj hmap
    omega
  induction x using encodeBytes.induct with
  | case1 c1 c2 c3 rest ih =>
    rw [encodeBytes] at h
    simp only [List.mem_cons] at h
    rcases h with rfl | rfl | rfl | rfl | h
    · exact hchar _
    · exact hchar _
    · exact hchar _
    · exact hchar _
    · exact ih h
  | case2 c1 c2 =>
    simp only [encodeBytes, List.mem_cons, List.not_mem_nil, or_false] at h
    rcases h with rfl | rfl | rfl
    · exact hchar _
    · exact hchar _
    · exact hchar _
  | case3 c1 =>
    simp only [encodeBytes, List.mem_cons, List.not_mem_nil, or_false] at h
    rcases h with rfl | rfl
    · exact hchar _
    · exact hchar _
  | case4 => cases h

/-- With enough room the text is written. -/
theorem encode_room (hx : 0 < x.length) (hsmall : x.length < 4294967296) (hroom : (x.length + 2) / 3 * 4 + 1 ≤ dLen) :
    (base64UrlEncode dLen x).ok = true := by
  unfold base64UrlEncode
  rw [if_neg (by omega)]
  dsimp only
  split_ifs
  · omega
  · omega
  · rfl
  · omega
  · omega
  · rfl

theorem storeKeyPair_eq (hd : mbed.mpiWriteBinary d 33 = some dBin) (hdLen : dBin.length = 33)
    (hq : mbed.ecpPointWriteBinary q 65 = some qBin) (hqLen : qBin.length = 65) :
    storeKeyPair mbed d q bufLen = if bufLen < 132 then .error .bufTooSmall
      else .ok (132, encodeBytes dBin ++ 32 :: (encodeBytes qBin ++ [0])) := by
  have hdOk : (base64UrlEncode 45 dBin).ok = true := encode_room (by omega) (by omega) (by omega)
  have hqOk : (base64UrlEncode 90 qBin).ok = true := encode_room (by omega) (by omega) (by omega)
  have hdText := (encode_ok hdOk).1
  have hqText := (encode_ok hqOk).1
  have hdEnc : (encodeBytes dBin).length = 44 := by rw [length_encodeBytes, hdLen]; rfl
  have hqEnc : (encodeBytes qBin).length = 87 := by rw [length_encodeBytes, hqLen]; rfl
  have hpub : encodePubKey mbed q 90 = .ok (encodeBytes qBin) := by
    unfold encodePubKey
    rw [hq]
    dsimp only
    rw [if_pos hqOk, hqText]
  unfold storeKeyPair
  rw [hd, hpub]
  dsimp only
  rw [hdOk, if_neg (by decide), hdText, hdEnc, hqEnc]

/-- A part of the file is read, whatever was in `dec` before. -/
theorem readPart_encode {read : List UInt8 → Option α} {value : α} (hread : read x = some value)
    (dec after : List UInt8) (hlen : x.length ≤ 88) (hexcess : excess x ≤ after.length)
    (hall : ∀ b ∈ after.take (excess x), Harmless b) :
    ∃ dec', readPart read dec (encodeBytes x ++ after) (encodeBytes x).length = some (.ok (dec', value)) := by
  have hback : DecodesTo 90 (encodeBytes x) after x := decodesTo_of_harmless (by omega) hexcess hall (by omega)
  obtain ⟨decoded, hrun, hcode, holen, hwritten⟩ := hback
  have hle : x.length ≤ decoded.written.length := by
    rw [← hwritten, List.length_take]
    exact Nat.min_le_right _ _
  refine ⟨decoded.written ++ dec.drop decoded.written.length, ?_⟩
  have hroom : ¬(decoded.written ++ dec.drop decoded.written.length).length < x.length := by
    rw [List.length_append]
    omega
  unfold readPart
  rw [hrun, Option.bind_some, if_neg (not_not.mpr hcode), holen]
  dsimp only
  rw [Option.bind_some, if_neg hroom, List.take_append_of_le_length hle, hwritten, hread]

/-- The two texts of the file are found and read. -/
theorem readKeyPair_store (hd : mbed.mpiReadBinary dBin = some d) (hdLen : dBin.length = 33)
    (hq : mbed.ecpPointReadBinary qBin = some q) (hqLen : qBin.length = 65) (after : List UInt8) :
    readKeyPair mbed (encodeBytes dBin ++ 32 :: (encodeBytes qBin ++ [0]) ++ after) = some (.ok (d, q)) := by
  have hfile : encodeBytes dBin ++ 32 :: (encodeBytes qBin ++ [0]) ++ after =
      encodeBytes dBin ++ 32 :: (encodeBytes qBin ++ 0 :: after) := by
    simp
  have hnul : 0 ∉ encodeBytes dBin ++ 32 :: encodeBytes qBin := by
    rw [List.mem_append, List.mem_cons]
    rintro (h | h | h)
    · exact (mem_encodeBytes h).1 rfl
    · cases h
    · exact (mem_encodeBytes h).1 rfl
  have htext : (encodeBytes dBin ++ 32 :: (encodeBytes qBin ++ 0 :: after)).takeWhile (fun b => decide (b ≠ 0)) =
      encodeBytes dBin ++ 32 :: encodeBytes qBin := by
    rw [← List.cons_append, ← List.append_assoc]
    exact takeWhile_sep hnul
  have hspace : (encodeBytes dBin ++ 32 :: encodeBytes qBin).takeWhile (fun b => decide (b ≠ 32)) =
      encodeBytes dBin := takeWhile_sep fun h => (mem_encodeBytes h).2 rfl
  have hdrop : (encodeBytes dBin ++ 32 :: (encodeBytes qBin ++ 0 :: after)).drop ((encodeBytes dBin).length + 1) =
      encodeBytes qBin ++ 0 :: after := by
    rw [List.drop_append, List.drop_of_length_le (Nat.le_succ _), Nat.add_sub_cancel_left]
    rfl
  have hlen : (encodeBytes dBin ++ 32 :: encodeBytes qBin).length =
      (encodeBytes dBin).length + ((encodeBytes qBin).length + 1) := List.length_append
  have hqEnc : (encodeBytes qBin).length = 87 := by rw [length_encodeBytes, hqLen]; rfl
  have hrest : (encodeBytes dBin).length + ((encodeBytes qBin).length + 1) - (encodeBytes dBin).length - 1 =
      (encodeBytes qBin).length := by
    omega
  have hdExcess : excess dBin = 0 := by rw [excess, hdLen]
  have hqExcess : excess qBin = 1 := by rw [excess, hqLen]
  obtain ⟨dec, hdRead⟩ := readPart_encode hd [] (32 :: (encodeBytes qBin ++ 0 :: after)) (by omega)
    (by rw [hdExcess]; exact Nat.zero_le _) (by rw [hdExcess]; intro b hb; cases hb)
  -- the byte behind the second text is the terminator
  obtain ⟨dec', hqRead⟩ := readPart_encode hq dec (0 :: after) (by omega)
    (by rw [hqExcess]; exact Nat.succ_le_succ (Nat.zero_le _))
    (by rw [hqExcess]; intro b hb; rw [List.mem_singleton.mp hb]; decide)
  unfold readKeyPair
  rw [hfile, if_neg (not_not.mpr (by simp))]
  dsimp only
  rw [htext, hspace, hlen, if_neg (by omega), hdRead, hdrop, hrest]
  dsimp only [Option.bind_some]
  rw [hqRead]
  rfl

/-- What is written: the size that is returned, and the terminator. -/
theorem length_store (hdLen : dBin.length = 33) (hqLen : qBin.length = 65) :
    (encodeBytes dBin ++ 32 :: (encodeBytes qBin ++ [0])).length = 133 := by
  simp only [List.length_append, List.length_cons, List.length_nil, length_encodeBytes, hdLen, hqLen]
  rfl

/-- A key pair is stored within the buffer and read back exactly for every size of the buffer but 132, which is what
    the room is checked for: the terminator is the byte behind it. -/
theorem key_file_exact (mbed : Mbedtls D Q) (d : D) (q : Q) (bufLen : Nat) (hback : mbed.ReadsBack d q) :
    RoundTrips mbed d q bufLen ↔ bufLen ≠ 132 := by
  obtain ⟨⟨dBin, hdWrite, hdLen, hdRead⟩, qBin, hqWrite, hqLen, hqRead⟩ := hback
  unfold RoundTrips
  rw [storeKeyPair_eq hdWrite hdLen hqWrite hqLen]
  constructor
  · rintro hall rfl
    -- the room is found to be enough, and one byte more is written
    have hle := (hall 132 _ (if_neg (Nat.lt_irrefl _))).1
    rw [length_store hdLen hqLen] at hle
    omega
  · intro hne size written hstore
    by_cases hsmall : bufLen < 132
    · rw [if_pos hsmall] at hstore
      cases hstore
    · rw [if_neg hsmall] at hstore
      cases hstore
      rw [length_store hdLen hqLen]
      refine ⟨by omega, fun after => ?_⟩
      exact readKeyPair_store hdRead hdLen hqRead hqLen after

/-! ## A key pair of P-256 -/

/-- A number in `n` bytes, the highest first. -/
def bytesOf : Nat → Nat → List UInt8
  | 0, _ => []
  | n + 1, v => bytesOf n (v / 256) ++ [UInt8.ofNat (v % 256)]

/-- The number that bytes stand for. -/
def numberOf (bytes : List UInt8) : Nat := bytes.foldl (fun v b => v * 256 + b.toNat) 0

/-- Numbers and coordinates as they are: a number that does not fit is refused, and so is a point in less than 65
    bytes. -/
def p256 : Mbedtls Nat (Nat × Nat) where
  mpiWriteBinary d n := if numberOf (bytesOf n d) = d then some (bytesOf n d) else none
  mpiReadBinary bytes := some (numberOf bytes)
  ecpPointWriteBinary q n := if n < 65 then none else some (4 :: (bytesOf 32 q.1 ++ bytesOf 32 q.2))
  ecpPointReadBinary bytes :=
    if bytes.length = 65 ∧ bytes.head? = some 4
    then some (numberOf (bytes.tail.take 32), numberOf (bytes.tail.drop 32)) else none

/-- The base point of the group. -/
def basePoint : Nat × Nat :=
  (0x6B17D1F2E12C4247F8BCE6E563A440F277037D812DEB33A0F4A13945D898C296,
    0x4FE342E2FE1A7F9B8EE7EB4A7C0F9E162BCE33576B315ECECBB6406837BF51F5)

/-- The pair with the private number 1 is read back. -/
theorem p256_readsBack : p256.ReadsBack 1 basePoint where
  number := ⟨bytesOf 33 1, by decide, by decide, by decide⟩
  point := ⟨4 :: (bytesOf 32 basePoint.1 ++ bytesOf 32 basePoint.2), by decide, by decide,
    by decide⟩

theorem key_file_exact_file : RoundTrips p256 1 basePoint 1024 :=
  (key_file_exact p256 1 basePoint 1024 p256_readsBack).mpr (by decide)

/-- Into 132 bytes, 133 are written. -/
theorem terminator_behind : p256.ReadsBack 1 basePoint ∧ ¬ RoundTrips p256 1 basePoint 132 := by
  refine ⟨p256_readsBack, fun h => ?_⟩
  obtain ⟨dBin, hdWrite, hdLen, -⟩ := p256_readsBack.number
  obtain ⟨qBin, hqWrite, hqLen, -⟩ := p256_readsBack.point
  have hle := (h 132 _ ((storeKeyPair_eq hdWrite hdLen hqWrite hqLen).trans (if_neg (Nat.lt_irrefl _)))).1
  rw [length_store hdLen hqLen] at hle
  exact absurd hle (by decide)

end DSLink.KeyFile
