import DSLink.Lib.Gather
import DSLink.Lib.KeyTree
import DSLink.Lib.Tails
import DSLink.Broker.Json

/-!
# `Sdk.NodeStore` — the nodes of a link, saved and loaded

`dslink_nodes_recursive_serialize` and `dslink_nodes_recursive_deserialize` of `sdk/src/dslink.c`, with
`dslink_node_serialize` and `dslink_node_deserialize` of `sdk/src/node.c`. A node becomes one object: its metadata, its
value under `?value` and the array of its children under `children`. The name of a node is not written. The reader
takes it from the metadata under `$name`, so what comes back is the tree that was saved only where the application
had put each name there.

What is no `json_t` or no defined behaviour is `none`: a read before a short key, a copy past `input`, a base64 text
that does not decode, an assertion that fails, a string that jansson refuses.

## Contents

* `Codec` — what the two functions take from mbedtls and jansson.
* `nodesRecursiveSerialize`, `nodesRecursiveDeserialize`.
* `stored` — where the tree comes back; `RoundTrips`.
-/

namespace DSLink.NodeStore

/-! ## What is outside -/

/-- AES in CBC mode under the key of the link and a zero `iv`, base64, and the check of jansson on its strings. -/
structure Codec where
  aesEncrypt : List UInt8 → List UInt8
  aesDecrypt : List UInt8 → List UInt8
  base64Encode : List UInt8 → CString
  base64Decode : CString → Option (List UInt8)
  utf8CheckString : CString → Bool

/-- What the documentation of the two libraries says about them. -/
structure Codec.Lawful (codec : Codec) : Prop where
  length_encrypt : ∀ input, input.length % 16 = 0 → (codec.aesEncrypt input).length = input.length
  decrypt_encrypt : ∀ input, input.length % 16 = 0 → codec.aesDecrypt (codec.aesEncrypt input) = input
  length_decrypt : ∀ input, input.length % 16 = 0 → (codec.aesDecrypt input).length = input.length
  decode_encode : ∀ input, codec.base64Decode (codec.base64Encode input) = some input
  length_decode : ∀ text input, codec.base64Decode text = some input → input.length ≤ text.length

/-! ## The nodes -/

/-- The fields of a `DSNode` that are saved. Its name is the key it has in `children`. -/
structure Fields where
  metaData : AssocMap CString Json
  value : Option Json
  serializable : Bool

/-- `DSNode`. -/
abbrev Node := KeyTree CString Fields

/-- `children` of a node. -/
abbrev Children := List (CString × Node)

/-- The mark in front of an encrypted password. -/
def mark : CString := 27 :: cstr "pw:"

/-- `name[0] == '$' && name[1] == '$'`. -/
def secret (name : CString) : Bool := (cstr "$$").isPrefixOf name

variable (codec : Codec)

/-! ## Saving -/

/-- `output_len`, which is meant to be the next multiple of 16. -/
def outputLen (inputLen : Nat) : Nat := (inputLen + 15) &&& 240

/-- The password in `base64`. `input` has 128 bytes. -/
def encryptPassword (s : CString) : Option CString :=
  if 128 < s.length then none
  else
    let input := s ++ List.replicate (128 - s.length) 0
    some (mark ++ codec.base64Encode (codec.aesEncrypt (input.take (outputLen s.length))))

/-- `strcmp(name + strlen(name) - 8, "password") == 0`. -/
def password (name : CString) : Bool := name.drop (name.length - 8) == cstr "password"

/-- What is written for one entry of the metadata. -/
def serializeEntry (name : CString) (value : Json) : Option Json :=
  if secret name then
    -- a shorter key is read from before its first byte
    if name.length < 8 then none
    else if password name then
      match value with
      | .string s => (encryptPassword codec s).map .string
      | value => some value
    else some value
  else some value

/-- `dslink_node_serialize`. `json_object_set` refuses a key that is not UTF-8. -/
def nodeSerialize (node : Fields) : Option Object :=
  (node.metaData.entries.foldlM (fun out entry => (serializeEntry codec entry.1 entry.2).map fun value =>
    if codec.utf8CheckString entry.1 then AssocMap.setIn entry.1 value out else out) []).map fun out =>
  match node.value with
  | none => out
  | some value => AssocMap.setIn (cstr "?value") value out

mutual

/-- `dslink_node_recursive_serialize`. -/
def nodeRecursiveSerialize : Node → Option (Option Json)
  | .node node children =>
    if node.serializable = false then some none
    else if (node.metaData.get (cstr "$invokable")).isSome then some none
    else (nodeSerialize codec node).bind fun result => (nodesRecursiveSerialize children).map fun children =>
      match children with
      | none => some (.object result)
      | some children => some (.object (AssocMap.setIn (cstr "children") (.array children) result))

/-- `dslink_nodes_recursive_serialize`. -/
def nodesRecursiveSerialize : Children → Option (Option (List Json))
  | [] => some none
  | (_, node) :: rest => (nodeRecursiveSerialize node).bind fun nodeJson =>
    (nodesRecursiveSerialize rest).map fun result =>
      match nodeJson with
      | none => result
      | some nodeJson => some (nodeJson :: result.getD [])

end

/-! ## Loading -/

/-- `mbedtls_aes_crypt_cbc` to decrypt. A length that is no multiple of 16 is refused, and `output` stays empty. -/
def decrypted (input : List UInt8) : List UInt8 :=
  if input.length % 16 = 0 then codec.aesDecrypt input else []

/-- The password in `output`, which has 128 bytes. -/
def decryptPassword (text : CString) : Option CString :=
  (codec.base64Decode text).bind fun input =>
    let s := (decrypted codec input).takeWhile (· ≠ 0)
    if (decrypted codec input).length ≤ 128 ∧ s.length < 128 ∧ codec.utf8CheckString s then some s else none

/-- What is read for one member of the object. -/
def deserializeEntry (key : CString) (value : Json) : Option Json :=
  match value with
  | .string s => if secret key ∧ s.take 4 = mark then (decryptPassword codec (s.drop 4)).map .string else some value
  | value => some value

/-- `dslink_node_deserialize`, on a node that is just created. -/
def nodeDeserialize (data : Object) : Option Fields :=
  (data.foldlM (fun metaData member =>
    if member.1 = cstr "?value" then some metaData
    else (deserializeEntry codec member.1 member.2).map fun value => metaData.set member.1 value)
    AssocMap.empty).map fun metaData => ⟨metaData, AssocMap.lookupIn (cstr "?value") data, true⟩

mutual

/-- `dslink_node_recursive_deserialize`, below a node that has the children `siblings`. Nothing is made without a
    name, and `dslink_node_add_child` asserts that the name is new. -/
def nodeRecursiveDeserialize : Json → Children → Option Children
  | .object members, siblings =>
    match (AssocMap.lookupIn (cstr "$name") members).bind Json.stringValue with
    | none => some siblings
    | some name =>
      (nodeDeserialize codec (AssocMap.eraseIn (cstr "children") members)).bind fun node =>
        if name ∈ siblings.map Prod.fst then none
        else (childrenDeserialize members).map fun children => siblings ++ [(name, .node node children)]
  | _, siblings => some siblings

/-- `dslink_nodes_recursive_deserialize`. -/
def nodesRecursiveDeserialize : List Json → Children → Option Children
  | [], siblings => some siblings
  | nodeJson :: rest, siblings =>
    (nodeRecursiveDeserialize nodeJson siblings).bind fun siblings => nodesRecursiveDeserialize rest siblings

/-- The nodes of the member `children`, below a node that has none. -/
def childrenDeserialize : Object → Option Children
  | [] => some []
  | (key, .array elems) :: rest =>
    if key = cstr "children" then nodesRecursiveDeserialize elems [] else childrenDeserialize rest
  | (key, _) :: rest => if key = cstr "children" then some [] else childrenDeserialize rest

end

/-! ## Passwords -/

variable {codec : Codec} {key name s text : CString} {value value' : Json}

theorem outputLen_spec : ∀ n < 129, n ≤ outputLen n ∧ outputLen n ≤ 128 ∧ outputLen n % 16 = 0 := by
  decide

theorem takeWhile_append_zeros (h : (0 : UInt8) ∉ s) (n : Nat) :
    (s ++ List.replicate n 0).takeWhile (fun b => decide (b ≠ 0)) = s := by
  cases n with
  | zero =>
    rw [List.replicate_zero, List.append_nil]
    exact takeWhile_none h
  | succ n => exact takeWhile_sep h

theorem zero_notMem_takeWhile {l : List UInt8} : (0 : UInt8) ∉ l.takeWhile (fun b => decide (b ≠ 0)) := by
  intro h
  have hb := List.mem_takeWhile_imp h
  simp at hb

theorem decryptPassword_eq_some (h : decryptPassword codec text = some s) : ∃ input,
    codec.base64Decode text = some input ∧ s = (decrypted codec input).takeWhile (fun b => decide (b ≠ 0)) ∧
      s.length < 128 ∧ codec.utf8CheckString s = true := by
  obtain ⟨input, hinput, h⟩ := Option.bind_eq_some_iff.mp h
  obtain ⟨hs, h⟩ := Option.ite_none_right_eq_some.mp h
  obtain rfl := Option.some.inj h
  exact ⟨input, hinput, rfl, hs.2⟩

/-- A password that is read is shorter than the buffer, ends at its first zero and is UTF-8. -/
theorem decryptPassword_some (h : decryptPassword codec text = some s) :
    s.length < 128 ∧ (0 : UInt8) ∉ s ∧ codec.utf8CheckString s = true := by
  obtain ⟨input, -, rfl, hlen, hutf⟩ := decryptPassword_eq_some h
  exact ⟨hlen, zero_notMem_takeWhile, hutf⟩

theorem decryptPassword_length (hlaw : codec.Lawful) (h : decryptPassword codec text = some s) :
    s.length ≤ text.length := by
  obtain ⟨input, hinput, rfl, -⟩ := decryptPassword_eq_some h
  apply Nat.le_trans (List.takeWhile_prefix _).length_le
  unfold decrypted
  split
  · rename_i hlen
    rw [hlaw.length_decrypt input hlen]
    exact hlaw.length_decode text input hinput
  · exact Nat.zero_le _

/-- What is read of a password that was written. -/
theorem decrypt_encrypt (hlaw : codec.Lawful) (h : encryptPassword codec s = some text) :
    text.take 4 = mark ∧
      (decryptPassword codec (text.drop 4) = some s ↔
        s.length < 128 ∧ (0 : UInt8) ∉ s ∧ codec.utf8CheckString s = true) := by
  unfold encryptPassword at h
  split at h
  · cases h
  · rename_i hlen
    obtain ⟨hle, hge, hmod⟩ := outputLen_spec s.length (by omega)
    obtain rfl := Option.some.inj h
    refine ⟨rfl, decryptPassword_some, fun hs => ?_⟩
    have hinput : (s ++ List.replicate (128 - s.length) 0).take (outputLen s.length) =
        s ++ List.replicate (outputLen s.length - s.length) 0 := by
      rw [List.take_append, List.take_of_length_le hle, List.take_replicate, Nat.min_eq_left (by omega)]
    have hinputLen : (s ++ List.replicate (outputLen s.length - s.length) (0 : UInt8)).length =
        outputLen s.length := by
      rw [List.length_append, List.length_replicate]
      omega
    have hinputMod : (s ++ List.replicate (outputLen s.length - s.length) (0 : UInt8)).length % 16 = 0 := by
      rw [hinputLen]
      exact hmod
    have hdec : decrypted codec (codec.aesEncrypt (s ++ List.replicate (outputLen s.length - s.length) 0)) =
        s ++ List.replicate (outputLen s.length - s.length) 0 := by
      rw [decrypted, if_pos (by rw [hlaw.length_encrypt _ hinputMod]; exact hinputMod),
        hlaw.decrypt_encrypt _ hinputMod]
    show decryptPassword codec (codec.base64Encode _) = some s
    rw [decryptPassword, hinput, hlaw.decode_encode, Option.bind_some, hdec]
    dsimp only
    rw [takeWhile_append_zeros hs.2.1, if_pos ⟨by rw [hinputLen]; exact hge, hs.1, hs.2.2⟩]

/-! ## Entries of the metadata -/

/-- An entry that comes back under its key. -/
structure EntryKept (codec : Codec) (key : CString) (value : Json) : Prop where
  utf8 : codec.utf8CheckString key = true
  long : secret key = true → 8 ≤ key.length
  encrypted : ∀ s, secret key = true → password key = true → value = .string s →
    s.length < 128 ∧ (0 : UInt8) ∉ s ∧ codec.utf8CheckString s = true
  plain : ∀ s, secret key = true → password key = false → value = .string s → s.take 4 ≠ mark

theorem deserializeEntry_of_not_secret (h : secret key = false) : deserializeEntry codec key value = some value := by
  cases value <;> simp [deserializeEntry, h]

theorem deserializeEntry_string (hsecret : secret key = true) :
    deserializeEntry codec key (.string s) =
      if s.take 4 = mark then (decryptPassword codec (s.drop 4)).map .string else some (.string s) := by
  simp [deserializeEntry, hsecret]

/-- A text under the mark does not come back as itself: it is longer than what is read of it. -/
theorem marked_lost (hlaw : codec.Lawful) (hmark : s.take 4 = mark) :
    decryptPassword codec (s.drop 4) ≠ some s := by
  intro h
  have hlen := decryptPassword_length hlaw h
  have htake : (s.take 4).length = 4 := hmark ▸ rfl
  rw [List.length_drop] at hlen
  rw [List.length_take] at htake
  omega

/-- What is read of a string that was written under a key of the kind that is encrypted. -/
theorem password_exact (hlaw : codec.Lawful) (hsecret : secret key = true) :
    (((encryptPassword codec s).map Json.string).bind fun value => deserializeEntry codec key value) =
      some (.string s) ↔ s.length < 128 ∧ (0 : UInt8) ∉ s ∧ codec.utf8CheckString s = true := by
  cases htext : encryptPassword codec s with
  | none =>
    constructor
    · intro h
      cases h
    · rintro ⟨hlen, -⟩
      simp only [encryptPassword, ite_eq_left_iff, reduceCtorEq, imp_false, not_not] at htext
      omega
  | some text =>
    obtain ⟨hmark, hread⟩ := decrypt_encrypt hlaw htext
    rw [Option.map_some, Option.bind_some, deserializeEntry_string hsecret, if_pos hmark, ← hread]
    simp

/-- What is read of an entry that was written. -/
theorem entry_exact (hlaw : codec.Lawful) (hutf : codec.utf8CheckString key = true) :
    ((serializeEntry codec key value).bind fun value => deserializeEntry codec key value) = some value ↔
      EntryKept codec key value := by
  unfold serializeEntry
  by_cases hsecret : secret key = true
  · rw [if_pos hsecret]
    by_cases hlen : key.length < 8
    · rw [if_pos hlen]
      constructor
      · intro h
        cases h
      · intro h
        exact absurd (h.long hsecret) (by omega)
    · rw [if_neg hlen]
      have hlong : secret key = true → 8 ≤ key.length := fun _ => by omega
      by_cases hstring : ∃ s, value = .string s
      · obtain ⟨s, rfl⟩ := hstring
        by_cases hpass : password key = true
        · rw [if_pos hpass, password_exact hlaw hsecret]
          constructor
          · intro h
            refine ⟨hutf, hlong, fun s' _ _ hs' => ?_, fun _ _ hno => ?_⟩
            · obtain rfl := Json.string.inj hs'
              exact h
            · rw [hpass] at hno
              cases hno
          · intro h
            exact h.encrypted s hsecret hpass rfl
        · have hpass' : password key = false := by simpa using hpass
          rw [if_neg hpass, Option.bind_some, deserializeEntry_string hsecret]
          by_cases hmark : s.take 4 = mark
          · rw [if_pos hmark]
            constructor
            · intro h
              obtain ⟨s', hs', he⟩ := Option.map_eq_some_iff.mp h
              obtain rfl := Json.string.inj he
              exact absurd hs' (marked_lost hlaw hmark)
            · intro h
              exact absurd hmark (h.plain s hsecret hpass' rfl)
          · rw [if_neg hmark]
            refine iff_of_true rfl ⟨hutf, hlong, fun _ _ hyes => ?_, fun s' _ _ hs' => ?_⟩
            · rw [hpass'] at hyes
              cases hyes
            · obtain rfl := Json.string.inj hs'
              exact hmark
      · have hno : ∀ s, value ≠ .string s := fun s hs => hstring ⟨s, hs⟩
        refine iff_of_true ?_ ⟨hutf, hlong, fun s _ _ hs => absurd hs (hno s), fun s _ _ hs => absurd hs (hno s)⟩
        cases value with
        | string s => exact absurd ⟨s, rfl⟩ hstring
        | _ => simp [deserializeEntry]
  · have hno : ¬ secret key = true → secret key = false := by simp
    rw [if_neg hsecret, Option.bind_some, deserializeEntry_of_not_secret (hno hsecret)]
    refine iff_of_true rfl ⟨hutf, ?_, ?_, ?_⟩
    · exact fun h => absurd h hsecret
    · exact fun _ h => absurd h hsecret
    · exact fun _ h => absurd h hsecret

/-! ## The fields of a node -/

variable {node : Fields} {out : Object}

/-- What the loop of the writer keeps. -/
def written (codec : Codec) (key : CString) (value : Json) : Option (Option Json) :=
  (serializeEntry codec key value).map fun value => if codec.utf8CheckString key then some value else none

/-- What the loop of the reader keeps. -/
def readBack (codec : Codec) (key : CString) (value : Json) : Option (Option Json) :=
  if key = cstr "?value" then some none else (deserializeEntry codec key value).map some

theorem nodeSerialize_eq : nodeSerialize codec node =
    (AssocMap.gather (written codec) node.metaData.entries).map fun r =>
      node.value.elim r fun value => AssocMap.setIn (cstr "?value") value r := by
  rw [← AssocMap.foldlM_setIn_nil (f := written codec) node.metaData.nodup]
  unfold nodeSerialize written
  congr 1
  · funext out
    cases node.value <;> rfl
  · congr 1
    funext out entry
    rw [Option.map_map]
    congr 1
    funext value
    show _ = Option.elim (if _ then _ else _) _ _
    split <;> rfl

theorem nodeDeserialize_iff {data : Object} (hdata : (data.map Prod.fst).Nodup) :
    nodeDeserialize codec data = some node ↔ AssocMap.gather (readBack codec) data = some node.metaData.entries ∧
      node.value = AssocMap.lookupIn (cstr "?value") data ∧ node.serializable = true := by
  rw [← AssocMap.foldlM_set_empty (f := readBack codec) hdata]
  have hloop : ∀ (metaData : AssocMap CString Json) (member : CString × Json),
      (if member.1 = cstr "?value" then some metaData
        else (deserializeEntry codec member.1 member.2).map fun value => metaData.set member.1 value) =
      (readBack codec member.1 member.2).map fun b => b.elim metaData fun b => metaData.set member.1 b := by
    intro metaData member
    unfold readBack
    split
    · rfl
    · rw [Option.map_map]
      rfl
  unfold nodeDeserialize
  simp only [hloop, AssocMap.empty]
  constructor
  · intro h
    obtain ⟨metaData, hm, rfl⟩ := Option.map_eq_some_iff.mp h
    rw [hm]
    exact ⟨rfl, rfl, rfl⟩
  · rintro ⟨h, hvalue, hser⟩
    obtain ⟨metaData, hm, he⟩ := Option.map_eq_some_iff.mp h
    obtain ⟨metaData', value, serializable⟩ := node
    obtain ⟨entries, nodup⟩ := metaData
    obtain ⟨entries', nodup'⟩ := metaData'
    cases he
    cases hvalue
    cases hser
    rw [hm]
    rfl

/-- The fields of a node that come back, when its name does. -/
structure FieldsKept (codec : Codec) (node : Fields) : Prop where
  children : node.metaData.get (cstr "children") = none
  value : node.metaData.get (cstr "?value") = none
  entry : ∀ key value, node.metaData.get key = some value → EntryKept codec key value

theorem nodup_nodeSerialize (h : nodeSerialize codec node = some out) : (out.map Prod.fst).Nodup := by
  rw [nodeSerialize_eq] at h
  obtain ⟨r, hr, rfl⟩ := Option.map_eq_some_iff.mp h
  have hnodup := AssocMap.nodup_gather hr node.metaData.nodup
  cases node.value with
  | none => exact hnodup
  | some value => exact AssocMap.nodup_setIn hnodup

/-- What is under a key of the metadata is written under it. -/
theorem lookupIn_nodeSerialize (h : nodeSerialize codec node = some out) (hkey : key ≠ cstr "?value") :
    AssocMap.lookupIn key out = (node.metaData.get key).bind fun value => (written codec key value).join := by
  rw [nodeSerialize_eq] at h
  obtain ⟨r, hr, rfl⟩ := Option.map_eq_some_iff.mp h
  have hlookup : AssocMap.lookupIn key r = _ := AssocMap.lookupIn_gather hr node.metaData.nodup
  cases node.value with
  | none => exact hlookup
  | some value =>
    show AssocMap.lookupIn key (AssocMap.setIn _ _ r) = _
    rw [AssocMap.lookupIn_setIn, if_neg hkey]
    exact hlookup

theorem written_eq_some : (written codec key value).join = some value' ↔
    codec.utf8CheckString key = true ∧ serializeEntry codec key value = some value' := by
  unfold written
  cases serializeEntry codec key value <;> simp

theorem readBack_eq_some : (readBack codec key value).join = some value' ↔
    key ≠ cstr "?value" ∧ deserializeEntry codec key value = some value' := by
  unfold readBack
  by_cases hkey : key = cstr "?value"
  · simp [hkey]
  · cases deserializeEntry codec key value <;> simp [hkey]

/-- A name is written as it is. -/
theorem serializeEntry_name : serializeEntry codec (cstr "$name") value = some value := by
  have hsecret : ¬ secret (cstr "$name") = true := by decide
  unfold serializeEntry
  rw [if_neg hsecret]

theorem name_nodeSerialize (h : nodeSerialize codec node = some out) :
    AssocMap.lookupIn (cstr "$name") out = some value ↔
      node.metaData.get (cstr "$name") = some value ∧ codec.utf8CheckString (cstr "$name") = true := by
  rw [lookupIn_nodeSerialize h (by decide), Option.bind_eq_some_iff]
  simp only [written_eq_some, serializeEntry_name, Option.some.injEq]
  constructor
  · rintro ⟨v, hv, hutf, rfl⟩
    exact ⟨hv, hutf⟩
  · rintro ⟨hv, hutf⟩
    exact ⟨value, hv, hutf, rfl⟩

/-- Fields that come back are kept. -/
theorem fieldsKept_of_load (hlaw : codec.Lawful) (hout : nodeSerialize codec node = some out)
    (hload : nodeDeserialize codec (AssocMap.eraseIn (cstr "children") out) = some node) : FieldsKept codec node := by
  have hnodup := nodup_nodeSerialize hout
  have hnodup' := AssocMap.nodup_eraseIn (k := cstr "children") hnodup
  have hentries := ((nodeDeserialize_iff hnodup').mp hload).1
  have hget : ∀ key, node.metaData.get key =
      (AssocMap.lookupIn key (AssocMap.eraseIn (cstr "children") out)).bind fun v => (readBack codec key v).join :=
    fun key => AssocMap.lookupIn_gather hentries hnodup'
  have hchildren : node.metaData.get (cstr "children") = none := by
    rw [hget, AssocMap.lookupIn_eraseIn hnodup, if_pos rfl]
    rfl
  have hvalue : node.metaData.get (cstr "?value") = none := by
    rw [hget]
    apply Option.eq_none_iff_forall_ne_some.mpr
    intro v hv
    obtain ⟨w, -, hw⟩ := Option.bind_eq_some_iff.mp hv
    exact (readBack_eq_some.mp hw).1 rfl
  refine ⟨hchildren, hvalue, fun key value hkey => ?_⟩
  have hread := hkey
  rw [hget] at hread
  obtain ⟨w, hw, hread⟩ := Option.bind_eq_some_iff.mp hread
  obtain ⟨hne, hread⟩ := readBack_eq_some.mp hread
  rw [AssocMap.lookupIn_eraseIn hnodup] at hw
  split at hw
  · cases hw
  · rw [lookupIn_nodeSerialize hout hne, hkey, Option.bind_some] at hw
    obtain ⟨hutf, hserialize⟩ := written_eq_some.mp hw
    apply (entry_exact hlaw hutf).mp
    rw [hserialize]
    exact hread

/-- Kept fields come back. -/
theorem load_of_fieldsKept (hlaw : codec.Lawful) (hser : node.serializable = true) (h : FieldsKept codec node) :
    ∃ out, nodeSerialize codec node = some out ∧
      nodeDeserialize codec (AssocMap.eraseIn (cstr "children") out) = some node := by
  have hentry : ∀ key value, (key, value) ∈ node.metaData.entries → ∃ stored,
      written codec key value = some (some stored) ∧ readBack codec key stored = some (some value) := by
    intro key value hmem
    have hget := AssocMap.mem_entries.mp hmem
    have hkept := h.entry key value hget
    obtain ⟨stored, hserialize, hread⟩ := Option.bind_eq_some_iff.mp ((entry_exact hlaw hkept.utf8).mpr hkept)
    have hne : key ≠ cstr "?value" := by
      rintro rfl
      rw [h.value] at hget
      cases hget
    refine ⟨stored, ?_, ?_⟩
    · rw [written, hserialize, Option.map_some, if_pos hkept.utf8]
    · rw [readBack, if_neg hne, hread, Option.map_some]
  obtain ⟨r, hr, hback⟩ := AssocMap.gather_eq_self hentry
  have hnotMem : ∀ key, node.metaData.get key = none → key ∉ r.map Prod.fst := by
    intro key hnone hmem
    obtain ⟨e, he, rfl⟩ := List.mem_map.mp (AssocMap.mem_keys_gather hr hmem)
    rw [AssocMap.mem_entries.mp he] at hnone
    cases hnone
  have hout : nodeSerialize codec node =
      some (node.value.elim r fun value => AssocMap.setIn (cstr "?value") value r) := by
    rw [nodeSerialize_eq, hr, Option.map_some]
  refine ⟨_, hout, (nodeDeserialize_iff (AssocMap.nodup_eraseIn (nodup_nodeSerialize hout))).mpr ?_⟩
  have hchildren := hnotMem _ h.children
  have hvalue := hnotMem _ h.value
  cases hv : node.value with
  | none =>
    show AssocMap.gather _ (AssocMap.eraseIn _ r) = _ ∧ none = AssocMap.lookupIn _ (AssocMap.eraseIn _ r) ∧ _
    rw [AssocMap.eraseIn_of_notMem hchildren]
    exact ⟨hback, (AssocMap.lookupIn_eq_none hvalue).symm, hser⟩
  | some value =>
    have hset : AssocMap.setIn (cstr "?value") value r = r ++ [(cstr "?value", value)] :=
      AssocMap.setIn_of_notMem hvalue
    have herase : AssocMap.eraseIn (cstr "children") (r ++ [(cstr "?value", value)]) =
        r ++ [(cstr "?value", value)] := by
      apply AssocMap.eraseIn_of_notMem
      rw [List.map_append, List.mem_append, not_or]
      refine ⟨hchildren, fun hmem => ?_⟩
      have hkey : cstr "children" = cstr "?value" := List.mem_singleton.mp hmem
      exact absurd hkey (by decide)
    show AssocMap.gather _ (AssocMap.eraseIn _ (AssocMap.setIn _ _ r)) = _ ∧
      some value = AssocMap.lookupIn _ (AssocMap.eraseIn _ (AssocMap.setIn _ _ r)) ∧ _
    rw [hset, herase, AssocMap.gather_append, hback]
    refine ⟨?_, ?_, hser⟩
    · simp [AssocMap.gather, readBack]
    · rw [← hset, AssocMap.lookupIn_setIn, if_pos rfl]

/-! ## Trees -/

variable {children siblings : Children} {tree : Node} {nodeJson : Json} {result : Option (List Json)}

mutual

/-- Every node may be saved and is no action, and the children of a node have different names. -/
def Storable : Node → Prop
  | .node node children =>
    node.serializable = true ∧ node.metaData.get (cstr "$invokable") = none ∧ StorableAll children

def StorableAll : Children → Prop
  | [] => True
  | (name, tree) :: rest => name ∉ rest.map Prod.fst ∧ Storable tree ∧ StorableAll rest

end

mutual

/-- Every node has its name in its metadata, and fields that come back. -/
def Stored (codec : Codec) (name : CString) : Node → Prop
  | .node node children =>
    node.metaData.get (cstr "$name") = some (.string name) ∧ FieldsKept codec node ∧ StoredAll codec children

def StoredAll (codec : Codec) : Children → Prop
  | [] => True
  | (name, tree) :: rest => Stored codec name tree ∧ StoredAll codec rest

end

/-- The array that is saved makes the tree again, and the tree that is made is saved as the same array. -/
def RoundTrips (codec : Codec) (children : Children) : Prop :=
  ∃ saved loaded, nodesRecursiveSerialize codec children = some saved ∧
    nodesRecursiveDeserialize codec (saved.getD []) [] = some loaded ∧ loaded = children ∧
    nodesRecursiveSerialize codec loaded = some saved

/-- The object of a node whose fields are `out` and whose children are saved as `result`. -/
def nodeObject (out : Object) (result : Option (List Json)) : Object :=
  result.elim out fun elems => AssocMap.setIn (cstr "children") (.array elems) out

theorem nodeRecursiveSerialize_eq {node : Fields} (h : Storable (.node node children)) :
    nodeRecursiveSerialize codec (.node node children) = (nodeSerialize codec node).bind fun out =>
      (nodesRecursiveSerialize codec children).map fun result => some (.object (nodeObject out result)) := by
  rw [nodeRecursiveSerialize, if_neg (by rw [h.1]; decide), h.2.1, if_neg (by decide)]
  congr 1
  funext out
  congr 1
  funext result
  cases result <;> rfl

@[simp] theorem eraseIn_nodeObject :
    AssocMap.eraseIn (cstr "children") (nodeObject out result) = AssocMap.eraseIn (cstr "children") out := by
  cases result with
  | none => rfl
  | some elems => exact AssocMap.eraseIn_setIn

@[simp] theorem name_nodeObject :
    AssocMap.lookupIn (cstr "$name") (nodeObject out result) = AssocMap.lookupIn (cstr "$name") out := by
  cases result with
  | none => rfl
  | some elems =>
    show AssocMap.lookupIn _ (AssocMap.setIn _ _ out) = _
    rw [AssocMap.lookupIn_setIn, if_neg (by decide)]

theorem childrenDeserialize_none {members : Object} (h : AssocMap.lookupIn (cstr "children") members = none) :
    childrenDeserialize codec members = some [] := by
  induction members with
  | nil => rw [childrenDeserialize]
  | cons member members ih =>
    obtain ⟨key, value⟩ := member
    simp only [AssocMap.lookupIn] at h
    split at h
    · cases h
    · rename_i hkey
      cases value <;> simp [childrenDeserialize, hkey, ih h]

theorem childrenDeserialize_array {members : Object} {elems : List Json}
    (h : AssocMap.lookupIn (cstr "children") members = some (.array elems)) :
    childrenDeserialize codec members = nodesRecursiveDeserialize codec elems [] := by
  induction members with
  | nil => cases h
  | cons member members ih =>
    obtain ⟨key, value⟩ := member
    simp only [AssocMap.lookupIn] at h
    split at h
    · rename_i hkey
      obtain rfl := Option.some.inj h
      rw [childrenDeserialize, if_pos hkey]
    · rename_i hkey
      cases value <;> simp [childrenDeserialize, hkey, ih h]

theorem childrenDeserialize_nodeObject {elems : List Json} :
    childrenDeserialize codec (nodeObject out (some elems)) = nodesRecursiveDeserialize codec elems [] := by
  apply childrenDeserialize_array
  show AssocMap.lookupIn _ (AssocMap.setIn _ _ out) = _
  rw [AssocMap.lookupIn_setIn, if_pos rfl]

/-! ## What is saved -/

theorem nodeRecursiveSerialize_some (h : Storable tree) {saved : Option Json}
    (hs : nodeRecursiveSerialize codec tree = some saved) : ∃ nodeJson, saved = some nodeJson := by
  cases tree with
  | node node children =>
    rw [nodeRecursiveSerialize_eq h] at hs
    obtain ⟨out, -, hs⟩ := Option.bind_eq_some_iff.mp hs
    obtain ⟨result, -, rfl⟩ := Option.map_eq_some_iff.mp hs
    exact ⟨_, rfl⟩

/-- The array of the first node and the nodes after it. -/
theorem nodesRecursiveSerialize_cons {name : CString} (h : Storable tree)
    (hs : nodesRecursiveSerialize codec ((name, tree) :: children) = some result) : ∃ nodeJson rest,
    nodeRecursiveSerialize codec tree = some (some nodeJson) ∧ nodesRecursiveSerialize codec children = some rest ∧
      result = some (nodeJson :: rest.getD []) := by
  rw [nodesRecursiveSerialize] at hs
  obtain ⟨saved, hsaved, hs⟩ := Option.bind_eq_some_iff.mp hs
  obtain ⟨rest, hrest, rfl⟩ := Option.map_eq_some_iff.mp hs
  obtain ⟨nodeJson, rfl⟩ := nodeRecursiveSerialize_some h hsaved
  exact ⟨nodeJson, rest, hsaved, hrest, rfl⟩

theorem length_nodesRecursiveSerialize (h : StorableAll children)
    (hs : nodesRecursiveSerialize codec children = some result) : (result.getD []).length = children.length := by
  induction children generalizing result with
  | nil =>
    rw [nodesRecursiveSerialize] at hs
    obtain rfl := Option.some.inj hs
    rfl
  | cons child children ih =>
    obtain ⟨nodeJson, rest, -, hrest, rfl⟩ := nodesRecursiveSerialize_cons h.2.1 hs
    show (rest.getD []).length + 1 = children.length + 1
    rw [ih h.2.2 hrest]

/-! ## What is loaded -/

/-- One object makes one node at most. -/
theorem nodeRecursiveDeserialize_cases {loaded : Children}
    (h : nodeRecursiveDeserialize codec nodeJson siblings = some loaded) :
    loaded = siblings ∨ ∃ child, loaded = siblings ++ [child] := by
  cases nodeJson with
  | object members =>
    rw [nodeRecursiveDeserialize] at h
    split at h
    · exact .inl (Option.some.inj h).symm
    · obtain ⟨node, -, h⟩ := Option.bind_eq_some_iff.mp h
      split at h
      · cases h
      · obtain ⟨below, -, rfl⟩ := Option.map_eq_some_iff.mp h
        exact .inr ⟨_, rfl⟩
  | _ =>
    rw [nodeRecursiveDeserialize] at h
    · exact .inl (Option.some.inj h).symm
    all_goals simp

theorem nodesRecursiveDeserialize_append {elems : List Json} {loaded : Children}
    (h : nodesRecursiveDeserialize codec elems siblings = some loaded) :
    ∃ more, loaded = siblings ++ more ∧ more.length ≤ elems.length := by
  induction elems generalizing siblings with
  | nil =>
    rw [nodesRecursiveDeserialize] at h
    exact ⟨[], by rw [List.append_nil, Option.some.inj h], Nat.le_refl _⟩
  | cons nodeJson elems ih =>
    rw [nodesRecursiveDeserialize] at h
    obtain ⟨next, hnext, h⟩ := Option.bind_eq_some_iff.mp h
    obtain ⟨more, rfl, hlen⟩ := ih h
    rcases nodeRecursiveDeserialize_cases hnext with rfl | ⟨child, rfl⟩
    · exact ⟨more, rfl, Nat.le_succ_of_le hlen⟩
    · refine ⟨child :: more, by simp, ?_⟩
      exact Nat.succ_le_succ hlen

/-- The first object makes the first node when as many nodes are made as there are objects. -/
theorem nodesRecursiveDeserialize_cons {elems : List Json} {child : CString × Node}
    (hlen : elems.length = children.length)
    (h : nodesRecursiveDeserialize codec (nodeJson :: elems) siblings = some (siblings ++ child :: children)) :
    nodeRecursiveDeserialize codec nodeJson siblings = some (siblings ++ [child]) ∧
      nodesRecursiveDeserialize codec elems (siblings ++ [child]) = some ((siblings ++ [child]) ++ children) := by
  rw [nodesRecursiveDeserialize] at h
  obtain ⟨next, hnext, h⟩ := Option.bind_eq_some_iff.mp h
  obtain ⟨more, hmore, hle⟩ := nodesRecursiveDeserialize_append h
  rcases nodeRecursiveDeserialize_cases hnext with rfl | ⟨child', rfl⟩
  · -- the node was left out, so there is one too few
    obtain rfl := List.append_cancel_left hmore
    rw [List.length_cons] at hle
    omega
  · rw [List.append_assoc] at hmore
    have hcons : child :: children = child' :: more := List.append_cancel_left hmore
    obtain ⟨rfl, rfl⟩ := List.cons.inj hcons
    refine ⟨hnext, ?_⟩
    rw [h, List.append_assoc]
    rfl

/-- What an object of a node makes. -/
theorem nodeRecursiveDeserialize_object {name : CString} {node : Fields}
    (h : nodeRecursiveDeserialize codec (.object (nodeObject out result)) siblings =
      some (siblings ++ [(name, .node node children)])) :
    AssocMap.lookupIn (cstr "$name") out = some (.string name) ∧
      nodeDeserialize codec (AssocMap.eraseIn (cstr "children") out) = some node ∧
      childrenDeserialize codec (nodeObject out result) = some children := by
  rw [nodeRecursiveDeserialize, name_nodeObject, eraseIn_nodeObject] at h
  split at h
  · have hlen := congrArg List.length (Option.some.inj h)
    rw [List.length_append, List.length_singleton] at hlen
    omega
  · rename_i name' hname
    obtain ⟨node', hnode, h⟩ := Option.bind_eq_some_iff.mp h
    split at h
    · cases h
    · obtain ⟨below, hbelow, h⟩ := Option.map_eq_some_iff.mp h
      have hlast := List.append_cancel_left h
      simp only [List.cons.injEq, Prod.mk.injEq, KeyTree.node.injEq, and_true] at hlast
      obtain ⟨rfl, rfl, rfl⟩ := hlast
      refine ⟨?_, hnode, hbelow⟩
      obtain ⟨value, hvalue, hstring⟩ := Option.bind_eq_some_iff.mp hname
      cases value with
      | string s =>
        obtain rfl := Option.some.inj hstring
        exact hvalue
      | _ => cases hstring

/-! ## There and back -/

mutual

/-- A node that comes back has its name and its fields kept. -/
theorem stored_of_load (hlaw : codec.Lawful) : {tree : Node} → {name : CString} → {nodeJson : Json} →
    {siblings : Children} → Storable tree → nodeRecursiveSerialize codec tree = some (some nodeJson) →
    nodeRecursiveDeserialize codec nodeJson siblings = some (siblings ++ [(name, tree)]) → Stored codec name tree
  | .node node children, name, nodeJson, siblings, hstor, hs, hl => by
    rw [nodeRecursiveSerialize_eq hstor] at hs
    obtain ⟨out, hout, hs⟩ := Option.bind_eq_some_iff.mp hs
    obtain ⟨result, hresult, hs⟩ := Option.map_eq_some_iff.mp hs
    obtain rfl := Option.some.inj hs
    obtain ⟨hname, hnode, hbelow⟩ := nodeRecursiveDeserialize_object hl
    refine ⟨((name_nodeSerialize hout).mp hname).1, fieldsKept_of_load hlaw hout hnode, ?_⟩
    cases result with
    | none =>
      have hlen := length_nodesRecursiveSerialize hstor.2.2 hresult
      obtain rfl := List.length_eq_zero_iff.mp hlen.symm
      trivial
    | some elems =>
      rw [childrenDeserialize_nodeObject] at hbelow
      exact storedAll_of_load hlaw hstor.2.2 hresult (hbelow.trans (by rw [List.nil_append]))

theorem storedAll_of_load (hlaw : codec.Lawful) : {children : Children} → {result : Option (List Json)} →
    {siblings : Children} → StorableAll children → nodesRecursiveSerialize codec children = some result →
    nodesRecursiveDeserialize codec (result.getD []) siblings = some (siblings ++ children) → StoredAll codec children
  | [], _, _, _, _, _ => trivial
  | (name, tree) :: rest, result, siblings, hstor, hs, hl => by
    obtain ⟨nodeJson, others, hnode, hothers, rfl⟩ := nodesRecursiveSerialize_cons hstor.2.1 hs
    obtain ⟨hfirst, hrest⟩ := nodesRecursiveDeserialize_cons (length_nodesRecursiveSerialize hstor.2.2 hothers) hl
    exact ⟨stored_of_load hlaw hstor.2.1 hnode hfirst, storedAll_of_load hlaw hstor.2.2 hothers hrest⟩

end

mutual

/-- A node that has its name and its fields kept comes back. -/
theorem load_of_stored (hlaw : codec.Lawful) : {tree : Node} → {name : CString} → Storable tree →
    Stored codec name tree → ∃ nodeJson, nodeRecursiveSerialize codec tree = some (some nodeJson) ∧
      ∀ siblings : Children, name ∉ siblings.map Prod.fst →
        nodeRecursiveDeserialize codec nodeJson siblings = some (siblings ++ [(name, tree)])
  | .node node children, name, hstor, h => by
    obtain ⟨out, hout, hnode⟩ := load_of_fieldsKept hlaw hstor.1 h.2.1
    obtain ⟨result, hresult, hempty, hbelow⟩ := loadAll_of_stored hlaw hstor.2.2 h.2.2
    refine ⟨.object (nodeObject out result), ?_, fun siblings hnew => ?_⟩
    · rw [nodeRecursiveSerialize_eq hstor, hout, Option.bind_some, hresult]
      rfl
    · have hname : AssocMap.lookupIn (cstr "$name") out = some (.string name) :=
        (name_nodeSerialize hout).mpr ⟨h.1, (h.2.1.entry _ _ h.1).utf8⟩
      have hchildren : childrenDeserialize codec (nodeObject out result) = some children := by
        cases result with
        | none =>
          have hnone : AssocMap.lookupIn (cstr "children") out = none := by
            rw [lookupIn_nodeSerialize hout (by decide), h.2.1.children]
            rfl
          rw [hempty rfl]
          exact childrenDeserialize_none hnone
        | some elems =>
          rw [childrenDeserialize_nodeObject]
          exact hbelow [] (by simp)
      rw [nodeRecursiveDeserialize, name_nodeObject, eraseIn_nodeObject, hname, hnode, hchildren]
      show (if name ∈ siblings.map Prod.fst then none else _) = _
      rw [if_neg hnew]
      rfl

theorem loadAll_of_stored (hlaw : codec.Lawful) : {children : Children} → StorableAll children →
    StoredAll codec children → ∃ result, nodesRecursiveSerialize codec children = some result ∧
      (result = none → children = []) ∧
      ∀ siblings : Children, (∀ name ∈ children.map Prod.fst, name ∉ siblings.map Prod.fst) →
        nodesRecursiveDeserialize codec (result.getD []) siblings = some (siblings ++ children)
  | [], _, _ => by
    refine ⟨none, by rw [nodesRecursiveSerialize], fun _ => rfl, fun siblings _ => ?_⟩
    rw [List.append_nil, Option.getD_none, nodesRecursiveDeserialize]
  | (name, tree) :: rest, hstor, h => by
    obtain ⟨nodeJson, hsave, hload⟩ := load_of_stored hlaw hstor.2.1 h.1
    obtain ⟨others, hothers, -, hrest⟩ := loadAll_of_stored hlaw hstor.2.2 h.2
    refine ⟨some (nodeJson :: others.getD []), ?_, fun hnone => (by cases hnone), fun siblings hnew => ?_⟩
    · rw [nodesRecursiveSerialize, hsave, Option.bind_some, hothers]
      rfl
    · show nodesRecursiveDeserialize codec (nodeJson :: others.getD []) siblings = _
      rw [nodesRecursiveDeserialize, hload siblings (hnew name List.mem_cons_self), Option.bind_some, hrest]
      · rw [List.append_assoc]
        rfl
      · intro key hkey
        rw [List.map_append, List.mem_append, not_or]
        refine ⟨hnew key (List.mem_cons_of_mem _ hkey), fun hmem => ?_⟩
        obtain rfl : key = name := List.mem_singleton.mp hmem
        exact hstor.1 hkey

end

/-- The tree below the super root comes back, and is saved as the same array again, exactly when every node has its
    name under `$name`, and fields of its own that come back. -/
theorem roundTrips_exact (hlaw : codec.Lawful) (h : StorableAll children) :
    RoundTrips codec children ↔ StoredAll codec children := by
  constructor
  · rintro ⟨saved, loaded, hs, hl, rfl, -⟩
    exact storedAll_of_load hlaw h hs (hl.trans (by rw [List.nil_append]))
  · intro hstored
    obtain ⟨saved, hs, -, hl⟩ := loadAll_of_stored hlaw h hstored
    exact ⟨saved, children, hs, hl [] (by simp), rfl, hs⟩

/-- A codec for strings of ASCII characters in which no password is hidden. -/
def plainCodec : Codec where
  aesEncrypt := id
  aesDecrypt := id
  base64Encode := id
  base64Decode := some
  utf8CheckString := fun s => s.all (· < 128)

theorem plainCodec_lawful : plainCodec.Lawful where
  length_encrypt _ _ := rfl
  decrypt_encrypt _ _ := rfl
  length_decrypt _ _ := rfl
  decode_encode _ := rfl
  length_decode text input h := by
    obtain rfl := Option.some.inj h
    exact Nat.le_refl _

/-- The fields of a node with a name in its metadata and a value. -/
def namedFields (name : String) (value : Int) : Fields :=
  ⟨AssocMap.empty.set (cstr "$name") (.string (cstr name)), some (.integer value), true⟩

/-- A room with a lamp in it. -/
def room : Children := [(cstr "room", .node (namedFields "room" 1) [(cstr "lamp", .node (namedFields "lamp" 2) [])])]

theorem storable_room : StorableAll room := by
  refine ⟨List.not_mem_nil, ⟨rfl, rfl, ?_⟩, trivial⟩
  exact ⟨List.not_mem_nil, ⟨rfl, rfl, trivial⟩, trivial⟩

theorem storedAll_room : StoredAll plainCodec room := by
  have hfields : ∀ name value, FieldsKept plainCodec (namedFields name value) := by
    intro name value
    refine ⟨rfl, rfl, fun key v hkey => ?_⟩
    have hname : key = cstr "$name" := by
      unfold namedFields at hkey
      rw [AssocMap.get_set] at hkey
      split at hkey
      · assumption
      · cases hkey
    subst hname
    have hsecret : ¬ secret (cstr "$name") = true := by decide
    refine ⟨by decide, ?_, ?_, ?_⟩
    · exact fun h => absurd h hsecret
    · exact fun _ h => absurd h hsecret
    · exact fun _ h => absurd h hsecret
  refine ⟨⟨rfl, hfields _ _, ?_⟩, trivial⟩
  exact ⟨⟨rfl, hfields _ _, trivial⟩, trivial⟩

theorem roundTrips_exact_room : RoundTrips plainCodec room :=
  (roundTrips_exact plainCodec_lawful storable_room).mpr storedAll_room

/-- A lamp whose name is nowhere in its metadata. -/
def unnamed : Children := [(cstr "lamp", .node ⟨AssocMap.empty, some (.integer 2), true⟩ [])]

/-- It is saved without its name, and nothing is loaded. -/
theorem unnamed_lost : plainCodec.Lawful ∧ StorableAll unnamed ∧ ¬ RoundTrips plainCodec unnamed := by
  refine ⟨plainCodec_lawful, ⟨List.not_mem_nil, ⟨rfl, rfl, trivial⟩, trivial⟩, ?_⟩
  rintro ⟨saved, loaded, hs, hl, rfl, -⟩
  have hsaved : nodesRecursiveSerialize plainCodec unnamed =
      some (some [.object [(cstr "?value", .integer 2)]]) := rfl
  obtain rfl := Option.some.inj (hsaved.symm.trans hs)
  have hloaded : nodesRecursiveDeserialize plainCodec [.object [(cstr "?value", .integer 2)]] [] = some [] := rfl
  have hempty : ([] : Children) = unnamed := Option.some.inj (hloaded.symm.trans hl)
  cases hempty

end DSLink.NodeStore
