import DSLink.Broker.Subscription
import DSLink.Storage.JsonFile

/-!
# `Broker.FileNames` — the files of data values and of QoS queues

`broker_data_node_update`, `on_delete_node_invoked` and `deserialize_data_node_values` of `broker/src/data/data.c`,
and the saves and the loading of `sdk/src/storage/json_file.c`, as far as they make the names of files. A name is
put together from escaped paths in a buffer of 512 or of 256 bytes; `snprintf` is given one byte less, and the NUL
is written at the length that the whole name has.

## Contents
- `dslinkStrUnescape_escape`, `unescape_escape_eq_self`: which paths come back from their names.
- `saveFile`, `deleteFile`, `loadFile`, `queueFile`, `loadQueueFile`.
- `DataFile`, `QueueFile`, `file_names_exact`.
-/

namespace DSLink

variable {c h l : UInt8} {p s w : CString}

/-! ## Escaping -/

/-- The bytes that `dslink_str_escape` replaces. -/
def Escaped (c : UInt8) : Prop := charVal c ≤ 44 ∨ c = 47 ∨ c = 58 ∨ c = 61

instance : DecidablePred Escaped := fun c => inferInstanceAs (Decidable (charVal c ≤ 44 ∨ c = 47 ∨ c = 58 ∨ c = 61))

theorem escape_escaped (hc : Escaped c) (p : CString) : dslinkStrEscape (c :: p) =
    37 :: encodeBase16 (charVal c / 16) :: encodeBase16 (charVal c % 16) :: dslinkStrEscape p := by
  rw [dslinkStrEscape]
  exact if_pos hc

theorem escape_copied (hc : ¬Escaped c) (p : CString) : dslinkStrEscape (c :: p) = c :: dslinkStrEscape p := by
  rw [dslinkStrEscape]
  exact if_neg hc

theorem length_escape (p : CString) : (dslinkStrEscape p).length = p.length + 2 * p.countP (fun c => Escaped c) := by
  induction p with
  | nil => rfl
  | cons c p ih =>
    by_cases hc : Escaped c
    · rw [escape_escaped hc, List.countP_cons_of_pos (by simpa using hc)]
      simp only [List.length_cons, ih]
      omega
    · rw [escape_copied hc, List.countP_cons_of_neg (by simpa using hc)]
      simp only [List.length_cons, ih]
      omega

/-- A hexadecimal digit. -/
def IsHex (c : UInt8) : Prop := -1 < decodeBase16 c

instance : DecidablePred IsHex := fun c => inferInstanceAs (Decidable (-1 < decodeBase16 c))

theorem escaped_of_le : ¬c < 128 → Escaped c :=
  forall_byte (P := fun c => ¬c < 128 → Escaped c) (by decide +kernel) c

/-- The two digits of an escaped byte give it back. -/
theorem decode_encode : Escaped c → c < 128 → IsHex (encodeBase16 (charVal c / 16)) ∧
    IsHex (encodeBase16 (charVal c % 16)) ∧
    (decodeBase16 (encodeBase16 (charVal c / 16)) * 16 + decodeBase16 (encodeBase16 (charVal c % 16))).toNat.toUInt8 = c :=
  forall_byte (P := fun c => Escaped c → c < 128 → IsHex (encodeBase16 (charVal c / 16)) ∧
    IsHex (encodeBase16 (charVal c % 16)) ∧ (decodeBase16 (encodeBase16 (charVal c / 16)) * 16 +
      decodeBase16 (encodeBase16 (charVal c % 16))).toNat.toUInt8 = c) (by decide +kernel) c

/-- A byte that is negative as a `char` has no first digit. -/
theorem encode_high : ¬c < 128 → encodeBase16 (charVal c / 16) = 255 :=
  forall_byte (P := fun c => ¬c < 128 → encodeBase16 (charVal c / 16) = 255) (by decide +kernel) c

/-! ## Unescaping -/

theorem unescape_other (hc : c ≠ 37) (s : CString) : dslinkStrUnescape (c :: s) = c :: dslinkStrUnescape s := by
  cases s with
  | nil => rw [dslinkStrUnescape]; simp
  | cons h s =>
    rw [dslinkStrUnescape]
    rintro c1 c2 rest rfl
    exact absurd rfl hc

/-- A text whose bytes are no negative `char`s. -/
def Ascii (p : CString) : Prop := ∀ c ∈ p, c < 128

instance : DecidablePred Ascii := fun p => inferInstanceAs (Decidable (∀ c ∈ p, c < 128))

theorem ascii_cons : Ascii (c :: p) ↔ c < 128 ∧ Ascii p := List.forall_mem_cons

/-- An ASCII byte comes back. -/
theorem unescape_escape_ascii (hc : c < 128) (p : CString) :
    dslinkStrUnescape (dslinkStrEscape (c :: p)) = c :: dslinkStrUnescape (dslinkStrEscape p) := by
  by_cases he : Escaped c
  · obtain ⟨hh, hl, hvalue⟩ := decode_encode he hc
    rw [escape_escaped he, dslinkStrUnescape, hvalue]
    exact if_pos ⟨hh, hl⟩
  · have hne : c ≠ 37 := fun h => he (h ▸ (by decide : Escaped 37))
    rw [escape_copied he, unescape_other hne]

/-- In place of a byte from 128 on there is a '%'. -/
theorem unescape_escape_high (hc : ¬c < 128) (p : CString) :
    (dslinkStrUnescape (dslinkStrEscape (c :: p))).head? = some 37 := by
  have hno : ¬(-1 < decodeBase16 (encodeBase16 (charVal c / 16)) ∧ -1 < decodeBase16 (encodeBase16 (charVal c % 16))) := by
    rw [encode_high hc]
    exact fun h => absurd h.1 (by decide)
  rw [escape_escaped (escaped_of_le hc), dslinkStrUnescape, if_neg hno]
  rfl

/-- The paths that come back from their names. -/
theorem unescape_escape_eq_self (p : CString) : dslinkStrUnescape (dslinkStrEscape p) = p ↔ Ascii p := by
  induction p with
  | nil => simp [dslinkStrEscape, dslinkStrUnescape, Ascii]
  | cons c p ih =>
    rw [ascii_cons]
    by_cases hc : c < 128
    · rw [unescape_escape_ascii hc, List.cons_inj_right, ih]
      exact (and_iff_right hc).symm
    · refine iff_of_false (fun h => ?_) (fun h => hc h.1)
      have hhead := unescape_escape_high hc p
      rw [h, List.head?_cons, Option.some.injEq] at hhead
      exact hc (hhead ▸ (by decide : (37 : UInt8) < 128))

/-- No name has a slash in it. -/
theorem slash_not_mem_escape (p : CString) : slash ∉ dslinkStrEscape p := by
  have hdigits : ∀ c : UInt8, slash ≠ encodeBase16 (charVal c / 16) ∧ slash ≠ encodeBase16 (charVal c % 16) :=
    forall_byte (by decide +kernel)
  induction p with
  | nil => simp [dslinkStrEscape]
  | cons c p ih =>
    by_cases hc : Escaped c
    · rw [escape_escaped hc]
      simp [ih, hdigits c, show slash ≠ 37 by decide]
    · have hne : slash ≠ c := fun h => hc (h ▸ (by decide : Escaped slash))
      rw [escape_copied hc]
      simp [ih, hne]

/-! ## The names of the files -/

/-- `snprintf(tmp, sizeof(tmp) - 1, ...); tmp[len] = 0` for a text that is to be written: the name in the buffer, or
    `none` if the NUL is written outside. -/
def formatName (size : Nat) (text : CString) : Option CString :=
  if text.length < size then some (text.take (size - 2)) else none

/-- `"data/%s"`. -/
def dataName (name : CString) : CString := cstr "data/" ++ name

/-- The file that `broker_data_node_update` writes for the node at `p`. -/
def saveFile (p : CString) : Option CString := formatName 512 (dataName (dslinkStrEscape p))

/-- The file that `on_delete_node_invoked` removes. -/
def deleteFile (p : CString) : Option CString := formatName 256 (dataName (dslinkStrEscape p))

/-- The file that `deserialize_data_node_values` reads for the entry `name` of the directory. -/
def loadFile (name : CString) : Option CString := formatName 256 (dataName name)

/-- The file that `json_storage_trigger_save` writes or removes for the queue of the requester at `a` for `b`, if the
    store is at `path`. `sprintf` writes the whole name. -/
def queueFile (path a b : CString) : Option CString :=
  let tm := Storage.savePath path (dslinkStrEscape a) (dslinkStrEscape b)
  if tm.length < 256 then some tm else none

/-- The file that `json_storage_load` reads for the entry `m` of the directory `n`, which it scans before. -/
def loadQueueFile (path n m : CString) : Option CString := do
  let _ ← formatName 256 (path ++ slash :: n)
  formatName 256 (Storage.savePath path n m)

/-- The value of the node at `p` is written, removed and read under one name, and comes back to that node. -/
def DataFile (p : CString) : Prop :=
  ∃ n, saveFile p = some (dataName n) ∧ deleteFile p = some (dataName n) ∧ loadFile n = some (dataName n) ∧
    dslinkStrUnescape n = p

/-- The queue of the requester at `a` for `b` is written and read under one name, and comes back to them. An entry of a
    directory has no slash in its name. -/
def QueueFile (path a b : CString) : Prop :=
  ∃ n m, slash ∉ n ∧ queueFile path a b = some (Storage.savePath path n m) ∧
    loadQueueFile path n m = some (Storage.savePath path n m) ∧ dslinkStrUnescape n = a ∧ dslinkStrUnescape m = b

/-- The length of an escaped path. -/
def escapedLength (p : CString) : Nat := p.length + 2 * p.countP (fun c => Escaped c)

theorem formatName_eq_some {size : Nat} {text name : CString} :
    formatName size text = some name ↔ text.length < size ∧ text.take (size - 2) = name := by
  unfold formatName
  split
  · rename_i hlt
    rw [Option.some.injEq, and_iff_right hlt]
  · rename_i hge
    exact iff_of_false (by simp) (fun h => hge h.1)

/-- A name that is to be in the buffer as it was written has to be shorter by two. -/
theorem formatName_self {size : Nat} {text : CString} (hsize : 2 ≤ size) :
    formatName size text = some text ↔ text.length + 2 ≤ size := by
  rw [formatName_eq_some, List.take_eq_self_iff]
  omega

theorem dataName_injective {m n : CString} (h : dataName m = dataName n) : m = n := List.append_cancel_left h

theorem length_dataName (n : CString) : (dataName n).length = n.length + 5 := by
  rw [dataName, List.length_append]
  exact Nat.add_comm 5 _

theorem dataFile_iff (p : CString) : DataFile p ↔ escapedLength p ≤ 249 ∧ Ascii p := by
  have hlen := length_dataName (dslinkStrEscape p)
  rw [length_escape] at hlen
  unfold escapedLength
  constructor
  · rintro ⟨n, hsave, hdelete, hload, hback⟩
    -- both buffers hold the name, and so the smaller one holds it all
    obtain ⟨hlt, hname⟩ := formatName_eq_some.mp hdelete
    obtain ⟨-, hname'⟩ := formatName_eq_some.mp hsave
    rw [List.take_of_length_le (by omega)] at hname'
    rw [hname'] at hname
    have hfull : (dataName n).length ≤ 254 := by
      rw [← hname, List.length_take]
      exact Nat.min_le_left _ _
    rw [← hname', hlen] at hfull
    refine ⟨by omega, ?_⟩
    rw [← unescape_escape_eq_self, dataName_injective hname', hback]
  · rintro ⟨hle, hascii⟩
    refine ⟨dslinkStrEscape p, ?_, ?_, ?_, (unescape_escape_eq_self p).mpr hascii⟩
    · rw [saveFile, formatName_self (by decide)]
      omega
    · rw [deleteFile, formatName_self (by decide)]
      omega
    · rw [loadFile, formatName_self (by decide)]
      omega

theorem length_savePath (path n m : CString) : (Storage.savePath path n m).length = path.length + n.length + m.length + 2 := by
  simp only [Storage.savePath, List.length_append, List.length_cons]
  omega

/-- The keys of a queue can be read off its file. -/
theorem savePath_injective {path n m n' m' : CString} (hn : slash ∉ n) (hn' : slash ∉ n')
    (h : Storage.savePath path n m = Storage.savePath path n' m') : n = n' ∧ m = m' := by
  simp only [Storage.savePath, List.append_assoc, List.cons_append, List.append_cancel_left_eq, List.cons.injEq,
    true_and] at h
  induction n generalizing n' with
  | nil =>
    cases n' with
    | nil => exact ⟨rfl, (List.cons.inj h).2⟩
    | cons c n' => exact absurd (List.cons.inj h).1 (fun he => hn' (he ▸ List.mem_cons_self))
  | cons c n ih =>
    cases n' with
    | nil => exact absurd (List.cons.inj h).1.symm (fun he => hn (he ▸ List.mem_cons_self))
    | cons c' n' =>
      obtain ⟨rfl, hrest⟩ := List.cons.inj h
      obtain ⟨rfl, rfl⟩ := ih (fun hm => hn (List.mem_cons_of_mem _ hm)) (fun hm => hn' (List.mem_cons_of_mem _ hm)) hrest
      exact ⟨rfl, rfl⟩

theorem queueFile_eq_some {path a b name : CString} : queueFile path a b = some name ↔
    (Storage.savePath path (dslinkStrEscape a) (dslinkStrEscape b)).length < 256 ∧
      Storage.savePath path (dslinkStrEscape a) (dslinkStrEscape b) = name := by
  unfold queueFile
  dsimp only
  split
  · rename_i hlt
    rw [Option.some.injEq, and_iff_right hlt]
  · rename_i hge
    exact iff_of_false (by simp) (fun h => hge h.1)

theorem queueFile_iff (path a b : CString) :
    QueueFile path a b ↔ path.length + escapedLength a + escapedLength b ≤ 252 ∧ Ascii a ∧ Ascii b := by
  have hlen := length_savePath path (dslinkStrEscape a) (dslinkStrEscape b)
  rw [length_escape, length_escape] at hlen
  unfold escapedLength
  constructor
  · rintro ⟨n, m, hn, hqueue, hload, ha, hb⟩
    obtain ⟨-, hname⟩ := queueFile_eq_some.mp hqueue
    obtain ⟨rfl, rfl⟩ := savePath_injective (slash_not_mem_escape a) hn hname
    obtain ⟨-, -, hload⟩ := Option.bind_eq_some_iff.mp hload
    rw [formatName_self (by decide)] at hload
    exact ⟨by omega, (unescape_escape_eq_self a).mp ha, (unescape_escape_eq_self b).mp hb⟩
  · rintro ⟨hle, ha, hb⟩
    refine ⟨dslinkStrEscape a, dslinkStrEscape b, slash_not_mem_escape a, ?_, ?_,
      (unescape_escape_eq_self a).mpr ha, (unescape_escape_eq_self b).mpr hb⟩
    · exact queueFile_eq_some.mpr ⟨by omega, rfl⟩
    · have hdir : (path ++ slash :: dslinkStrEscape a).length + 2 ≤ 256 := by
        simp only [List.length_append, List.length_cons, length_escape]
        omega
      rw [loadQueueFile, (formatName_self (by decide)).mpr hdir]
      exact (formatName_self (by decide)).mpr (by omega)

/-- Two nodes and two queues: every file stays in its buffers and comes back to what it was made for, and what is not
    the same has not the same file. -/
structure FilesRight (path p p' a b a' b' : CString) : Prop where
  data : DataFile p ∧ DataFile p'
  queue : QueueFile path a b ∧ QueueFile path a' b'
  dataApart : p ≠ p' → saveFile p ≠ saveFile p'
  queueApart : (a, b) ≠ (a', b') → queueFile path a b ≠ queueFile path a' b'

/-- **File names.** The names of the files of data values and of queues are consistent, in bounds and distinct exactly
    for ASCII paths that are short enough. -/
theorem file_names_exact (path p p' a b a' b' : CString) : FilesRight path p p' a b a' b' ↔
    ((escapedLength p ≤ 249 ∧ Ascii p) ∧ escapedLength p' ≤ 249 ∧ Ascii p') ∧
    (path.length + escapedLength a + escapedLength b ≤ 252 ∧ Ascii a ∧ Ascii b) ∧
    (path.length + escapedLength a' + escapedLength b' ≤ 252 ∧ Ascii a' ∧ Ascii b') := by
  rw [← dataFile_iff, ← dataFile_iff, ← queueFile_iff, ← queueFile_iff]
  constructor
  · intro h
    exact ⟨h.data, h.queue⟩
  · rintro ⟨hdata, hqueue⟩
    refine ⟨hdata, hqueue, fun hne he => hne ?_, fun hne he => hne ?_⟩
    · -- both come back from one name
      obtain ⟨⟨n, hn, -, -, hp⟩, n', hn', -, -, hp'⟩ := hdata
      rw [hn, hn', Option.some.injEq] at he
      rw [← hp, ← hp', dataName_injective he]
    · obtain ⟨⟨n, m, hslash, hf, -, ha, hb⟩, n', m', hslash', hf', -, ha', hb'⟩ := hqueue
      rw [hf, hf', Option.some.injEq] at he
      obtain ⟨rfl, rfl⟩ := savePath_injective hslash hslash' he
      rw [← ha, ← ha', ← hb, ← hb']

/-- A data node below `/data` with a name of 260 letters. -/
def longPath : CString := cstr "/data/" ++ List.replicate 260 97

/-- Its value is saved, and when it is deleted the NUL is written behind the buffer. -/
theorem delete_outside : ∃ p, (saveFile p).isSome ∧ deleteFile p = none ∧ ¬DataFile p := by
  refine ⟨longPath, by decide +kernel, by decide +kernel, fun h => ?_⟩
  obtain ⟨n, -, hdelete, -⟩ := h
  rw [show deleteFile longPath = none by decide +kernel] at hdelete
  cases hdelete

end DSLink
