import DSLink.Broker.Token
import DSLink.Lib.Run

/-!
# `Broker.TokenBudget` — how often a token is accepted

The token nodes and their files, with every event that reads or writes them: tokens are added, used by `/conn`
requests, deleted, imported through the append file, and read again at a start. A file holds what was written to
it. `get_token_node` and the delete action look for `token/<name>` below the current directory, which need not be
the file in the storage directory; what they find there is an argument of the event.

## Contents
- `TokenStore` and its functions, `Event`, `step`.
- `Within`, `Budget`: what a token may still be used for, in memory and in its file.
- `token_budget`.
-/

namespace DSLink.Token

/-- The token nodes, the files of the token directory, and the tokens of the accepted handshakes, latest first. -/
structure TokenStore where
  children : Tokens
  files : AssocMap CString Json
  accepted : List CString

/-- `broker_node_create` and the loop of `load_token_node`. -/
def nodeMetadata (data : Json) : Metadata :=
  let start := AssocMap.empty.set (cstr "$is") (Json.string (cstr "node"))
  match data with
  | .object members => members.foldl (fun metadata e => metadata.set e.1 e.2) start
  | _ => start

/-- A text is set only if it is not empty. -/
def setText (metadata : Metadata) (key : CString) (value : Option Json) : Metadata :=
  match value with
  | some (.string s) => if s ≠ [] then metadata.set key (.string s) else metadata
  | _ => metadata

/-- The name of the append file. -/
def appendName : CString := cstr "append"

/-- The tokens of an append file. -/
def appended : Json → List Json
  | .array elems => elems
  | json => [json]

namespace TokenStore

/-- `save_token_node`. -/
def saveTokenNode (σ : TokenStore) (name : CString) (metadata : Metadata) : TokenStore :=
  { σ with files := σ.files.set name (.object metadata.entries) }

/-- `load_token_node`. A name that is taken stays with its node. -/
def loadTokenNode (σ : TokenStore) (name : CString) (data : Json) : TokenStore :=
  if (σ.children.get name).isSome then σ
  else { σ with children := σ.children.set name (nodeMetadata data) }

/-- `append_file_token`. The name is copied without a look at the length of the text. -/
def appendFileToken (σ : TokenStore) (json : Json) : Option TokenStore :=
  match (json.get (cstr "$$token")).bind Json.stringValue with
  | none => some σ
  | some token =>
    if token.length + 1 < 16 then none
    else some ((σ.loadTokenNode (token.take 16) json).saveTokenNode (token.take 16) (nodeMetadata json))

/-- `parse_new_token_json`. -/
def parseNewTokenJson (σ : TokenStore) (json : Json) : Option TokenStore := do
  let σ ← (appended json).foldlM appendFileToken σ
  some { σ with files := σ.files.erase appendName }

/-- `new_file_token_changed`. -/
def newFileTokenChanged (σ : TokenStore) : Option TokenStore :=
  match σ.files.get appendName with
  | none => some σ
  | some json => σ.parseNewTokenJson json

/-- A round of the loop of `load_tokens`. -/
def loadEntry (σ : TokenStore) (name : CString) : Option TokenStore :=
  match σ.files.get name with
  | none => some σ
  | some json =>
    if name.length = 16 then some (σ.loadTokenNode name json)
    else if name = appendName then σ.parseNewTokenJson json
    else some σ

/-- `init_tokens` at a new start, with the names in the order of the directory. -/
def restart (σ : TokenStore) (names : List CString) : Option TokenStore :=
  names.foldlM loadEntry { σ with children := .empty }

/-- `token_used`. -/
def tokenUsed (σ : TokenStore) (name : CString) : TokenStore :=
  match σ.children.get name with
  | none => σ
  | some metadata =>
    match metadata.get (cstr "$$count") with
    | some (.integer count) =>
      if 0 < count then
        let metadata := metadata.set (cstr "$$count") (.integer (count - 1))
        { σ with children := σ.children.set name metadata }.saveTokenNode name metadata
      else σ
    | _ => σ

/-- `delete_token_invoke`; `unlinked` says whether the path it unlinks is that of the file. -/
def deleteTokenInvoke (σ : TokenStore) (name : CString) (unlinked : Bool) : TokenStore :=
  { σ with
    children := σ.children.erase name
    files := if unlinked then σ.files.erase name else σ.files }

section

variable (sha256 : List UInt8 → List UInt8) (toInt64 : UInt64 → Int)

/-- `$$count` of a new token. -/
def setCount (metadata : Metadata) (value : Option Json) : Metadata :=
  match value with
  | some (.integer count) => metadata.set (cstr "$$count") (.integer count)
  | some (.real bits) => metadata.set (cstr "$$count") (.integer (toInt64 bits))
  | _ => metadata

/-- `$$managed` of a new token. -/
def setManaged (metadata : Metadata) (value : Option Json) : Metadata :=
  match value with
  | some (.bool managed) => metadata.set (cstr "$$managed") (.bool managed)
  | _ => metadata

/-- The `meta` of a new token. -/
def addedMetadata (token : CString) (params : Option Json) : Metadata :=
  let metadata := (AssocMap.empty.set (cstr "$is") (Json.string (cstr "node"))).set (cstr "$$token") (.string token)
  match params with
  | none => metadata
  | some params =>
    let metadata := setText metadata (cstr "$$timeRange") (params.get (cstr "TimeRange"))
    let metadata := setCount toInt64 metadata (params.get (cstr "Count"))
    let metadata := setManaged metadata (params.get (cstr "Managed"))
    setText metadata (cstr "$$group") (params.get (cstr "Group"))

/-- `add_token_invoke`; `token` are the random characters: 48 of them, and the first 16 are not taken. -/
def addTokenInvoke (σ : TokenStore) (token : CString) (params : Option Json) : Option TokenStore :=
  if params.any (fun params => !params.isObject) then some σ
  else if token.length ≠ 48 ∨ (σ.children.get (token.take 16)).isSome then none
  else
    let metadata := addedMetadata toInt64 token params
    some ({ σ with children := σ.children.set (token.take 16) metadata }.saveTokenNode (token.take 16) metadata)

/-- The part of `broker_handshake_handle_conn` from the token on. `nodeFound` says whether there is a node for the
    link or one is made, `finished` whether the rest of the function gets to its end. -/
def handleConn (σ : TokenStore) (stat : CString → Bool) (hashBinary : List UInt8) (token dsId : CString)
    (nodeFound finished : Bool) : Option TokenStore := do
  let (result, children) ← getTokenNode sha256 stat σ.children hashBinary token dsId
  let σ := { σ with children := children }
  match result with
  | none => some σ
  | some name =>
    if !nodeFound then some σ
    else
      let used := σ.tokenUsed name
      if !finished then some used
      else some { used with accepted := ((σ.children.get name).bind tokenText).toList ++ used.accepted }

end

end TokenStore

/-- What can happen to tokens. -/
inductive Event
  | add (token : CString) (params : Option Json)
  | conn (stat : CString → Bool) (hashBinary : List UInt8) (token dsId : CString) (nodeFound finished : Bool)
  | delete (name : CString) (unlinked : Bool)
  | writeAppend (json : Json)
  | append
  | restart (names : List CString)

/-- One event. -/
def step (sha256 : List UInt8 → List UInt8) (toInt64 : UInt64 → Int) (σ : TokenStore) : Event → Option TokenStore
  | .add token params => σ.addTokenInvoke toInt64 token params
  | .conn stat hashBinary token dsId nodeFound finished =>
    σ.handleConn sha256 stat hashBinary token dsId nodeFound finished
  | .delete name unlinked => some (σ.deleteTokenInvoke name unlinked)
  | .writeAppend json => some { σ with files := σ.files.set appendName json }
  | .append => σ.newFileTokenChanged
  | .restart names => σ.restart names

/-- No token of an append file is `T`. -/
def Clean (T : CString) (json : Json) : Prop := ∀ e ∈ appended json, tokenText (nodeMetadata e) ≠ some T

/-- `T` is neither imported nor drawn a second time. -/
def Event.Keeps (T : CString) : Event → Prop
  | .add token _ => token ≠ T
  | .writeAppend json => Clean T json
  | _ => True

/-! ## Metadata in files -/

theorem get_foldl_set (members : List (CString × Json)) (hnodup : (members.map Prod.fst).Nodup) (start : Metadata)
    (k : CString) :
    (members.foldl (fun metadata e => metadata.set e.1 e.2) start).get k
      = (AssocMap.lookupIn k members).or (start.get k) := by
  induction members generalizing start with
  | nil => rfl
  | cons e members ih =>
    obtain ⟨hnot, hrest⟩ := List.nodup_cons.mp hnodup
    rw [List.foldl_cons, ih hrest, AssocMap.lookupIn, AssocMap.get_set]
    by_cases hk : e.1 = k
    · rw [if_pos hk, if_pos hk.symm, AssocMap.lookupIn_eq_none (hk ▸ hnot), Option.none_or, Option.some_or]
    · rw [if_neg hk, if_neg (Ne.symm hk)]

/-- What is saved is loaded again. -/
theorem get_nodeMetadata (metadata : Metadata) {k : CString} (hk : k ≠ cstr "$is") :
    (nodeMetadata (.object metadata.entries)).get k = metadata.get k := by
  show AssocMap.get (metadata.entries.foldl _ _) k = _
  rw [get_foldl_set metadata.entries metadata.nodup, AssocMap.get_set_ne hk]
  exact Option.or_none

theorem tokenText_nodeMetadata (metadata : Metadata) :
    tokenText (nodeMetadata (.object metadata.entries)) = tokenText metadata := by
  unfold tokenText
  rw [get_nodeMetadata metadata (by decide)]

theorem tokenText_set_count (metadata : Metadata) (value : Json) :
    tokenText (metadata.set (cstr "$$count") value) = tokenText metadata := by
  unfold tokenText
  rw [AssocMap.get_set_ne (by decide)]

/-! ## What a token is still good for -/

/-- After `used` handshakes the count leaves no more than `n` of them in all. -/
def Within (n : Int) (used : Nat) (metadata : Metadata) : Prop :=
  ∃ count, metadata.get (cstr "$$count") = some (.integer count) ∧ 0 ≤ count ∧ used + count ≤ n

theorem Within.mono {n : Int} {used used' : Nat} {metadata : Metadata} (h : Within n used metadata)
    (hle : used' ≤ used) : Within n used' metadata := by
  obtain ⟨count, hcount, h0, hn⟩ := h
  exact ⟨count, hcount, h0, by omega⟩

theorem within_nodeMetadata {n : Int} {used : Nat} {metadata : Metadata} (h : Within n used metadata) :
    Within n used (nodeMetadata (.object metadata.entries)) := by
  obtain ⟨count, hcount, h⟩ := h
  exact ⟨count, (get_nodeMetadata metadata (by decide)).trans hcount, h⟩

/-- After `used` handshakes with `T` its node and its file leave no more than `n` in all, and no other node or file
    is for `T`. -/
structure Budget (T : CString) (n : Int) (used : Nat) (σ : TokenStore) : Prop where
  bound : used ≤ n
  node : ∀ name metadata, σ.children.get name = some metadata → tokenText metadata = some T →
    name = T.take 16 ∧ Within n used metadata
  file : ∀ name json, name ≠ appendName → σ.files.get name = some json →
    tokenText (nodeMetadata json) = some T → name = T.take 16 ∧ Within n used (nodeMetadata json)
  append : ∀ json, σ.files.get appendName = some json → Clean T json

namespace Budget

variable {T : CString} {n : Int} {used : Nat} {σ σ' : TokenStore}

theorem mono {used' : Nat} (h : Budget T n used σ) (hle : used' ≤ used) : Budget T n used' σ where
  bound := by
    have := h.bound
    omega
  node name metadata hget htoken := by
    obtain ⟨hname, hwithin⟩ := h.node name metadata hget htoken
    exact ⟨hname, hwithin.mono hle⟩
  file name json hne hget htoken := by
    obtain ⟨hname, hwithin⟩ := h.file name json hne hget htoken
    exact ⟨hname, hwithin.mono hle⟩
  append := h.append

/-- Fewer nodes and files. -/
theorem shrinks (h : Budget T n used σ)
    (hchildren : ∀ name metadata, σ'.children.get name = some metadata → σ.children.get name = some metadata)
    (hfiles : ∀ name json, σ'.files.get name = some json → σ.files.get name = some json) :
    Budget T n used σ' where
  bound := h.bound
  node name metadata hget := h.node name metadata (hchildren name metadata hget)
  file name json hne hget := h.file name json hne (hfiles name json hget)
  append json hget := h.append json (hfiles _ _ hget)

theorem setNode (h : Budget T n used σ) (name : CString) {metadata : Metadata}
    (hnew : tokenText metadata = some T → name = T.take 16 ∧ Within n used metadata) :
    Budget T n used { σ with children := σ.children.set name metadata } where
  bound := h.bound
  node name' metadata' hget htoken := by
    rw [AssocMap.get_set] at hget
    split at hget
    · rename_i he
      obtain rfl := Option.some.inj hget
      exact he ▸ hnew htoken
    · exact h.node name' metadata' hget htoken
  file := h.file
  append := h.append

theorem save (h : Budget T n used σ) {name : CString} {metadata : Metadata} (hne : name ≠ appendName)
    (hnew : tokenText metadata = some T → name = T.take 16 ∧ Within n used metadata) :
    Budget T n used (σ.saveTokenNode name metadata) where
  bound := h.bound
  node := h.node
  file name' json hne' hget htoken := by
    change (σ.files.set name _).get name' = _ at hget
    rw [AssocMap.get_set] at hget
    split at hget
    · rename_i he
      obtain rfl := Option.some.inj hget
      rw [tokenText_nodeMetadata] at htoken
      obtain ⟨hname, hwithin⟩ := hnew htoken
      exact ⟨he.trans hname, within_nodeMetadata hwithin⟩
    · exact h.file name' json hne' hget htoken
  append json hget := by
    change (σ.files.set name _).get appendName = _ at hget
    rw [AssocMap.get_set_ne hne.symm] at hget
    exact h.append json hget

theorem load (h : Budget T n used σ) (name : CString) {json : Json}
    (hnew : tokenText (nodeMetadata json) = some T → name = T.take 16 ∧ Within n used (nodeMetadata json)) :
    Budget T n used (σ.loadTokenNode name json) := by
  unfold TokenStore.loadTokenNode
  split
  · exact h
  · exact h.setNode name hnew

/-- A name of some length is not the one of the append file. -/
theorem ne_appendName {name : CString} (h : 15 ≤ name.length) : name ≠ appendName := by
  rintro rfl
  exact absurd h (by decide)

theorem appendFileToken (h : Budget T n used σ) {json : Json} (hclean : tokenText (nodeMetadata json) ≠ some T)
    (hs : σ.appendFileToken json = some σ') : Budget T n used σ' := by
  unfold TokenStore.appendFileToken at hs
  split at hs
  · cases hs
    exact h
  · rename_i token _
    split at hs
    · cases hs
    · rename_i hlen
      cases hs
      have hne : token.take 16 ≠ appendName := by
        apply ne_appendName
        rw [List.length_take]
        omega
      have hloaded := h.load (token.take 16) (fun htoken => absurd htoken hclean)
      exact hloaded.save hne (fun htoken => absurd htoken hclean)

theorem parseNewTokenJson (h : Budget T n used σ) {json : Json} (hclean : Clean T json)
    (hs : σ.parseNewTokenJson json = some σ') : Budget T n used σ' := by
  simp only [TokenStore.parseNewTokenJson, Option.bind_eq_bind, Option.bind_eq_some_iff] at hs
  obtain ⟨τ, hτ, hs⟩ := hs
  obtain rfl := Option.some.inj hs
  have hbudget : Budget T n used τ :=
    foldlM_invariant (Budget T n used) (fun s e he s' hs hrun => hs.appendFileToken (hclean e he) hrun) hτ h
  apply hbudget.shrinks
  · exact fun _ _ hget => hget
  · exact fun _ _ hget => (AssocMap.get_erase_eq_some.mp hget).2

theorem loadEntry (h : Budget T n used σ) {name : CString} (hs : σ.loadEntry name = some σ') :
    Budget T n used σ' := by
  unfold TokenStore.loadEntry at hs
  split at hs
  · cases hs
    exact h
  · rename_i json hget
    split at hs
    · rename_i hlen
      cases hs
      exact h.load name (fun htoken => h.file name json (ne_appendName (by omega)) hget htoken)
    · split at hs
      · rename_i hname
        subst hname
        exact h.parseNewTokenJson (h.append json hget) hs
      · cases hs
        exact h

theorem restart (h : Budget T n used σ) {names : List CString} (hs : σ.restart names = some σ') :
    Budget T n used σ' := by
  refine foldlM_invariant (Budget T n used) (fun s name _ s' hs hrun => hs.loadEntry hrun) hs ?_
  apply h.shrinks
  · rintro name metadata hget
    cases hget
  · exact fun _ _ hget => hget

theorem newFileTokenChanged (h : Budget T n used σ) (hs : σ.newFileTokenChanged = some σ') :
    Budget T n used σ' := by
  unfold TokenStore.newFileTokenChanged at hs
  split at hs
  · cases hs
    exact h
  · rename_i json hget
    exact h.parseNewTokenJson (h.append json hget) hs

theorem deleteTokenInvoke (h : Budget T n used σ) (name : CString) (unlinked : Bool) :
    Budget T n used (σ.deleteTokenInvoke name unlinked) := by
  apply h.shrinks
  · exact fun _ _ hget => (AssocMap.get_erase_eq_some.mp hget).2
  · rintro name' json hget
    cases unlinked with
    | false => exact hget
    | true => exact (AssocMap.get_erase_eq_some.mp hget).2

theorem writeAppend (h : Budget T n used σ) {json : Json} (hclean : Clean T json) :
    Budget T n used { σ with files := σ.files.set appendName json } where
  bound := h.bound
  node := h.node
  file name json' hne hget := by
    change (σ.files.set appendName json).get name = _ at hget
    rw [AssocMap.get_set_ne hne] at hget
    exact h.file name json' hne hget
  append json' hget := by
    change (σ.files.set appendName json).get appendName = _ at hget
    rw [AssocMap.get_set_self] at hget
    exact Option.some.inj hget ▸ hclean

/-- A token that is used once more: what its node and file are still good for is counted down with it. -/
theorem tokenUsed (h : Budget T n used σ) {name : CString} {metadata : Metadata} (hlen : name.length = 16)
    (hget : σ.children.get name = some metadata) (hspent : spent metadata = false) :
    Budget T n (if tokenText metadata = some T then used + 1 else used) (σ.tokenUsed name) := by
  have hne : name ≠ appendName := ne_appendName (by omega)
  unfold TokenStore.tokenUsed
  by_cases hT : tokenText metadata = some T
  · rw [if_pos hT]
    obtain ⟨hname, count, hcount, h0, hn⟩ := h.node name metadata hget hT
    have hpos : 0 < count := by
      simp only [spent, hcount, decide_eq_false_iff_not] at hspent
      omega
    simp only [hget, hcount, if_pos hpos]
    have hwithin : Within n (used + 1) (metadata.set (cstr "$$count") (.integer (count - 1))) :=
      ⟨count - 1, AssocMap.get_set_self .., by omega, by omega⟩
    constructor
    · omega
    · rintro name' metadata' hget' htoken
      change (σ.children.set name _).get name' = _ at hget'
      rw [AssocMap.get_set] at hget'
      split at hget'
      · rename_i he
        obtain rfl := Option.some.inj hget'
        exact ⟨he.trans hname, hwithin⟩
      · rename_i he
        exact absurd ((h.node name' metadata' hget' htoken).1.trans hname.symm) he
    · rintro name' json hne' hget' htoken
      change (σ.files.set name _).get name' = _ at hget'
      rw [AssocMap.get_set] at hget'
      split at hget'
      · rename_i he
        obtain rfl := Option.some.inj hget'
        exact ⟨he.trans hname, within_nodeMetadata hwithin⟩
      · rename_i he
        exact absurd ((h.file name' json hne' hget' htoken).1.trans hname.symm) he
    · rintro json hget'
      change (σ.files.set name _).get appendName = _ at hget'
      rw [AssocMap.get_set_ne hne.symm] at hget'
      exact h.append json hget'
  · rw [if_neg hT]
    simp only [hget]
    split
    · rename_i count _
      split
      · have hother : tokenText (metadata.set (cstr "$$count") (.integer (count - 1))) ≠ some T := by
          rw [tokenText_set_count]
          exact hT
        have hset := h.setNode name (fun htoken => absurd htoken hother)
        exact hset.save hne (fun htoken => absurd htoken hother)
      · exact h
    · exact h

/-- A node of `T` is there only because `T` was added. -/
theorem addTokenInvoke (h : Budget T n used σ) {toInt64 : UInt64 → Int} {token : CString} {params : Option Json}
    (hnew : tokenText (TokenStore.addedMetadata toInt64 token params) = some T →
      token.take 16 = T.take 16 ∧ Within n used (TokenStore.addedMetadata toInt64 token params))
    (hs : σ.addTokenInvoke toInt64 token params = some σ') : Budget T n used σ' := by
  unfold TokenStore.addTokenInvoke at hs
  split at hs
  · cases hs
    exact h
  · split at hs
    · cases hs
    · rename_i hnot
      obtain ⟨hlen, -⟩ := not_or.mp hnot
      cases hs
      have hne : token.take 16 ≠ appendName := by
        apply ne_appendName
        rw [List.length_take]
        omega
      exact (h.setNode (token.take 16) hnew).save hne hnew

theorem accepted (h : Budget T n used σ) (accepted : List CString) :
    Budget T n used { σ with accepted := accepted } := ⟨h.bound, h.node, h.file, h.append⟩

end Budget

/-! ## Only a handshake is accepted -/

section

variable {σ σ' : TokenStore}

theorem accepted_loadTokenNode (σ : TokenStore) (name : CString) (json : Json) :
    (σ.loadTokenNode name json).accepted = σ.accepted := by
  unfold TokenStore.loadTokenNode
  split <;> rfl

theorem accepted_parseNewTokenJson {json : Json} (hs : σ.parseNewTokenJson json = some σ') :
    σ'.accepted = σ.accepted := by
  simp only [TokenStore.parseNewTokenJson, Option.bind_eq_bind, Option.bind_eq_some_iff] at hs
  obtain ⟨τ, hτ, hs⟩ := hs
  obtain rfl := Option.some.inj hs
  show τ.accepted = σ.accepted
  refine foldlM_invariant (fun s : TokenStore => s.accepted = σ.accepted) ?_ hτ rfl
  rintro s e - s' h hrun
  unfold TokenStore.appendFileToken at hrun
  split at hrun
  · cases hrun
    exact h
  · split at hrun
    · cases hrun
    · cases hrun
      exact (accepted_loadTokenNode s _ e).trans h

theorem accepted_restart {names : List CString} (hs : σ.restart names = some σ') : σ'.accepted = σ.accepted := by
  refine foldlM_invariant (fun s : TokenStore => s.accepted = σ.accepted) ?_ hs rfl
  rintro s name - s' h hrun
  unfold TokenStore.loadEntry at hrun
  split at hrun
  · cases hrun
    exact h
  · split at hrun
    · cases hrun
      exact (accepted_loadTokenNode s _ _).trans h
    · split at hrun
      · exact (accepted_parseNewTokenJson hrun).trans h
      · cases hrun
        exact h

theorem accepted_newFileTokenChanged (hs : σ.newFileTokenChanged = some σ') : σ'.accepted = σ.accepted := by
  unfold TokenStore.newFileTokenChanged at hs
  split at hs
  · cases hs
    rfl
  · exact accepted_parseNewTokenJson hs

theorem accepted_addTokenInvoke {toInt64 : UInt64 → Int} {token : CString} {params : Option Json}
    (hs : σ.addTokenInvoke toInt64 token params = some σ') : σ'.accepted = σ.accepted := by
  unfold TokenStore.addTokenInvoke at hs
  split at hs
  · cases hs
    rfl
  · split at hs
    · cases hs
    · cases hs
      rfl

theorem accepted_tokenUsed (σ : TokenStore) (name : CString) : (σ.tokenUsed name).accepted = σ.accepted := by
  unfold TokenStore.tokenUsed
  split
  · rfl
  · split
    · split <;> rfl
    · rfl

end

/-! ## The run -/

theorem get_setText_ne {metadata : Metadata} {key k : CString} (value : Option Json) (h : k ≠ key) :
    (setText metadata key value).get k = metadata.get k := by
  unfold setText
  split
  · split
    · exact AssocMap.get_set_ne h
    · rfl
  · rfl

theorem get_setCount_ne (toInt64 : UInt64 → Int) {metadata : Metadata} {k : CString} (value : Option Json)
    (h : k ≠ cstr "$$count") : (TokenStore.setCount toInt64 metadata value).get k = metadata.get k := by
  unfold TokenStore.setCount
  split
  · exact AssocMap.get_set_ne h
  · exact AssocMap.get_set_ne h
  · rfl

theorem get_setManaged_ne {metadata : Metadata} {k : CString} (value : Option Json) (h : k ≠ cstr "$$managed") :
    (TokenStore.setManaged metadata value).get k = metadata.get k := by
  unfold TokenStore.setManaged
  split
  · exact AssocMap.get_set_ne h
  · rfl

/-- The text of a new token is the one that was drawn. -/
theorem tokenText_addedMetadata (toInt64 : UInt64 → Int) (token : CString) (params : Option Json) :
    tokenText (TokenStore.addedMetadata toInt64 token params) = some token := by
  unfold tokenText TokenStore.addedMetadata
  cases params with
  | none => rfl
  | some params =>
    dsimp only
    rw [get_setText_ne _ (by decide), get_setManaged_ne _ (by decide), get_setCount_ne toInt64 _ (by decide),
      get_setText_ne _ (by decide), AssocMap.get_set_self]
    rfl

/-- What a lookup leaves, and what it returns. -/
theorem getTokenNode_children {sha256 : List UInt8 → List UInt8} {stat : CString → Bool} {tokens tokens' : Tokens}
    {hashBinary : List UInt8} {h dsId : CString} {result : Option CString}
    (hrun : getTokenNode sha256 stat tokens hashBinary h dsId = some (result, tokens')) :
    ∀ name metadata, tokens'.get name = some metadata → tokens.get name = some metadata := by
  have herase : ∀ k name metadata, (tokens.erase k).get name = some metadata → tokens.get name = some metadata :=
    fun k name metadata hget => (AssocMap.get_erase_eq_some.mp hget).2
  unfold getTokenNode at hrun
  split at hrun
  · cases hrun
  · dsimp only at hrun
    split at hrun
    · cases hrun
      exact fun _ _ hget => hget
    · split at hrun
      · cases hrun
        exact fun _ _ hget => hget
      · split at hrun
        · cases hrun
          exact fun _ _ hget => hget
        · split at hrun
          · cases hrun
            exact herase _
          · simp only [Option.bind_eq_bind, Option.bind_eq_some_iff] at hrun
            obtain ⟨length, -, decoded, -, hrun⟩ := hrun
            split at hrun
            · cases hrun
            · split at hrun <;> (cases hrun; exact fun _ _ hget => hget)

section

variable {sha256 : List UInt8 → List UInt8} {toInt64 : UInt64 → Int} {T : CString} {n : Int} {σ σ' : TokenStore}

/-- A handshake counts the token down before it can be accepted. -/
theorem handleConn_budget {stat : CString → Bool} {hashBinary : List UInt8} {token dsId : CString}
    {nodeFound finished : Bool} (h : Budget T n (σ.accepted.count T) σ)
    (hs : σ.handleConn sha256 stat hashBinary token dsId nodeFound finished = some σ') :
    Budget T n (σ'.accepted.count T) σ' := by
  simp only [TokenStore.handleConn, Option.bind_eq_bind, Option.bind_eq_some_iff] at hs
  obtain ⟨⟨result, children⟩, hlookup, hs⟩ := hs
  have hfound : Budget T n (σ.accepted.count T) { σ with children := children } :=
    h.shrinks (getTokenNode_children hlookup) (fun _ _ hget => hget)
  cases result with
  | none =>
    cases hs
    exact hfound
  | some name =>
    dsimp only at hs
    split at hs
    · cases hs
      exact hfound
    · obtain ⟨rfl, hlen, rfl, metadata, text, hget, hspent, htext, -⟩ := getTokenNode_name hlookup
      have hused := hfound.tokenUsed (List.length_take_of_le hlen) hget hspent
      have hsame := accepted_tokenUsed { σ with children := σ.children } (token.take 16)
      split at hs
      · cases hs
        rw [hsame]
        apply hused.mono
        split <;> omega
      · cases hs
        have hcount : List.count T ((σ.children.get (token.take 16)).bind tokenText).toList
            = if tokenText metadata = some T then 1 else 0 := by
          rw [hget, Option.bind_some, htext, Option.toList_some, List.count_singleton]
          by_cases he : text = T
          · subst he
            simp
          · simp [he]
        show Budget T n (List.count T (_ ++ _)) _
        rw [List.count_append, hcount, hsame]
        have hsum : (if tokenText metadata = some T then 1 else 0) + σ.accepted.count T
            = if tokenText metadata = some T then σ.accepted.count T + 1 else σ.accepted.count T := by
          split <;> omega
        rw [hsum]
        exact hused.accepted _

theorem Budget.step {e : Event} (h : Budget T n (σ.accepted.count T) σ) (he : e.Keeps T)
    (hs : Token.step sha256 toInt64 σ e = some σ') : Budget T n (σ'.accepted.count T) σ' := by
  have same (heq : σ'.accepted = σ.accepted) (hb : Budget T n (σ.accepted.count T) σ') :
      Budget T n (σ'.accepted.count T) σ' := heq ▸ hb
  cases e with
  | add token params =>
    have hadd : σ.addTokenInvoke toInt64 token params = some σ' := hs
    refine same (accepted_addTokenInvoke hadd) (h.addTokenInvoke (fun htoken => ?_) hadd)
    rw [tokenText_addedMetadata] at htoken
    exact absurd (Option.some.inj htoken) he
  | conn stat hashBinary token dsId nodeFound finished => exact handleConn_budget h hs
  | delete name unlinked =>
    cases hs
    exact h.deleteTokenInvoke name unlinked
  | writeAppend json =>
    cases hs
    exact h.writeAppend he
  | append => exact same (accepted_newFileTokenChanged hs) (h.newFileTokenChanged hs)
  | restart names => exact same (accepted_restart hs) (h.restart hs)

/-- Nobody knows `T`. -/
structure Unknown (T : CString) (σ : TokenStore) : Prop where
  accepted : T ∉ σ.accepted
  node : ∀ name metadata, σ.children.get name = some metadata → tokenText metadata ≠ some T
  file : ∀ name json, name ≠ appendName → σ.files.get name = some json →
    tokenText (nodeMetadata json) ≠ some T
  append : ∀ json, σ.files.get appendName = some json → Clean T json

/-- The token `T` was just added with the count `n`. -/
def Created (toInt64 : UInt64 → Int) (T : CString) (n : Int) (σ : TokenStore) : Prop :=
  ∃ σ₀ params, Unknown T σ₀ ∧ σ₀.addTokenInvoke toInt64 T params = some σ ∧
    (TokenStore.addedMetadata toInt64 T params).get (cstr "$$count") = some (.integer n)

/-- A token that was added with the count `n` is accepted at most `n` times, whoever uses it and however often the
    broker is started again. -/
theorem token_budget (hn : 0 ≤ n)
    (h : Reach (Token.step sha256 toInt64) (fun _ e => e.Keeps T) (Created toInt64 T n) σ) :
    (σ.accepted.count T : Int) ≤ n := by
  refine (Reach.invariant (fun σ => Budget T n (σ.accepted.count T) σ) ?_ ?_ h).bound
  · rintro σ ⟨σ₀, params, hunknown, hadd, hcount⟩
    have hzero : σ₀.accepted.count T = 0 := List.count_eq_zero.mpr hunknown.accepted
    have hstart : Budget T n 0 σ₀ :=
      ⟨by omega, fun name metadata hget htoken => absurd htoken (hunknown.node name metadata hget),
        fun name json hne hget htoken => absurd htoken (hunknown.file name json hne hget), hunknown.append⟩
    rw [accepted_addTokenInvoke hadd, hzero]
    exact hstart.addTokenInvoke (fun _ => ⟨rfl, n, hcount, hn, by omega⟩) hadd
  · rintro σ e σ' hbudget he hs
    exact hbudget.step he hs

end

/-! ## A token that may be used once -/

/-- The token of 48 letters. -/
def onceToken : CString := List.replicate 48 65

/-- A broker without tokens. -/
def emptyStore : TokenStore := ⟨.empty, .empty, []⟩

theorem emptyStore_unknown (T : CString) : Unknown T emptyStore where
  accepted := List.not_mem_nil
  node name metadata hget := by cases hget
  file name json _ hget := by cases hget
  append json hget := by cases hget

/-- The broker on which it was just added. -/
def onceStore : Option TokenStore :=
  emptyStore.addTokenInvoke (fun _ => 0) onceToken (some (.object [(cstr "Count", .integer 1)]))

/-- The link `d` connects with the token. -/
def connOnce : Event := .conn (fun _ => true) (List.replicate 40 0) validToken (cstr "d") true true

/-- It connects twice, the broker is started again, and it connects once more. -/
theorem token_budget_once : ∃ σ, Reach (step sha256At (fun _ => 0)) (fun _ e => e.Keeps onceToken)
    (fun σ => onceStore = some σ) σ ∧ σ.accepted = [onceToken] ∧ (σ.accepted.count onceToken : Int) ≤ 1 := by
  have hrun : (onceStore.bind (fun σ => runFrom (step sha256At (fun _ => 0)) σ
      [connOnce, connOnce, .restart [tokenName], connOnce])).any
        (fun σ => σ.accepted = [onceToken]) = true := by decide
  obtain ⟨σ, hσ, haccepted⟩ := (Option.any_eq_true _ _).mp hrun
  obtain ⟨σ₀, hσ₀, hrun⟩ := Option.bind_eq_some_iff.mp hσ
  have hkeeps : ∀ e ∈ [connOnce, connOnce, Event.restart [tokenName], connOnce], e.Keeps onceToken := by
    rintro e he
    simp only [List.mem_cons, List.not_mem_nil, or_false] at he
    rcases he with rfl | rfl | rfl | rfl <;> trivial
  have hreach : Reach (step sha256At (fun _ => 0)) (fun _ e => e.Keeps onceToken) (fun σ => onceStore = some σ) σ :=
    Reach.of_run (.start hσ₀) (RunOk.of_forall hkeeps) hrun
  have hcreated : Reach (step sha256At (fun _ => 0)) (fun _ e => e.Keeps onceToken)
      (Created (fun _ => 0) onceToken 1) σ := by
    apply hreach.of_init
    rintro σ₁ hσ₁
    exact ⟨emptyStore, _, emptyStore_unknown onceToken, hσ₁, rfl⟩
  exact ⟨σ, hreach, of_decide_eq_true haccepted, token_budget (by decide) hcreated⟩

end DSLink.Token
