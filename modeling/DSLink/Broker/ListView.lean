import DSLink.Broker.Attribute

/-!
# `Broker.ListView` — the list stream of a downstream path and what its requesters see

`broker/src/msg/msg_list_remote.c` and the half of `stream.c` it uses. The broker folds the responses of the responder
into `updates_cache` and sends every requester rows; a requester folds the rows it gets into its own view. `Converged`
says that the views are the cache.

The rest of the broker is the `Site` that an event comes with: between two events on this stream it may change in any
way.

## Contents
- `getCache`, `listResponse`, `disconnect`, `join`: what the broker does. `viewRows`: what a requester does.
- `seesCache`: what the rows of the cache do to a view.
- `remains`: what a response leaves in the cache, read off its rows. `Kept`: the events that lose nothing.
- `list_views_converge`.
-/

namespace DSLink

/-- What a requester has for each name. -/
abbrev View := CString → Option Json

/-- `BrokerListStream` on a downstream node, without the table of its requesters' rids. `views` is what each requester
    has folded; no function of the broker reads it. -/
structure RemoteList where
  updatesCache : Metadata
  cacheSent : Bool
  views : AssocMap Nat View

/-- A row of a list response as the loop in `broker_list_dslink_response` takes it: an array that starts with a name,
    or an object that removes one. -/
inductive ListRow
  | set (name : CString) (value : Option Json)
  | remove (name : CString)
  | other

/-- Reading a row. The first element of an empty array is dereferenced. -/
def listRow : Json → Option ListRow
  | .array [] => none
  | .array (.string name :: rest) => some (.set name rest.head?)
  | .object members =>
    match ((Json.object members).get (cstr "name")).bind Json.stringValue,
        ((Json.object members).get (cstr "change")).bind Json.stringValue with
    | some name, some change => some (if change = cstr "remove" then .remove name else .other)
    | _, _ => some .other
  | _ => some .other

/-- The two names that clear a cache or a view. -/
def clears (name : CString) : Bool := name = cstr "$base" || name = cstr "$is"

/-! ## What a requester does -/

/-- One row folded into a view, until the first clearing row with `fresh`. -/
def viewRow (p : View × Bool) (row : Json) : View × Bool :=
  match listRow row with
  | some (.set name (some value)) =>
    if clears name ∧ p.2 then (Function.update (fun _ => none) name (some value), false)
    else (Function.update p.1 name (some value), p.2)
  | some (.remove name) => (Function.update p.1 name none, p.2)
  | _ => p

/-- A message folded into a view; it may have no updates. -/
def viewRows (view : View) (updates : Option (List Json)) : View :=
  ((updates.getD []).foldl viewRow (view, true)).1

/-! ## What the broker does -/

namespace Json

/-- The values jansson has one object of each for. -/
def literal : Json → Option (Option Bool)
  | .null => some none
  | .bool b => some (some b)
  | _ => none

/-- Two members of a cache point to the same value. -/
def shared (a b : Json) : Bool := a.literal.isSome && a.literal = b.literal

end Json

/-- `add_to_update`. -/
def addToUpdate (key : CString) (value : Json) : Json := .array [.string key, value]

/-- The row of a member that is written first. -/
def firstRow (cache : Metadata) (key : CString) : List Json :=
  match cache.get key with
  | none => []
  | some value => [addToUpdate key value]

/-- The members the loop of `broker_stream_list_get_cache` adds: those whose value is neither the one of `$base` nor
    the one of `$is`, compared as pointers. -/
def laterMember (cache : Metadata) (e : CString × Json) : Bool :=
  !clears e.1 && !(cache.get (cstr "$base")).any e.2.shared && !(cache.get (cstr "$is")).any e.2.shared

/-- `broker_stream_list_get_cache`. -/
def getCache (cache : Metadata) : Option (List Json) :=
  if cache.size = 0 then none
  else some (firstRow cache (cstr "$base") ++ firstRow cache (cstr "$is") ++
    (cache.entries.filter (laterMember cache)).map (fun e => addToUpdate e.1 e.2))

namespace RemoteList

/-- Every requester gets the rows. -/
def sendAll (s : RemoteList) (updates : Option (List Json)) : RemoteList :=
  { s with views := ⟨s.views.entries.map (fun e => (e.1, viewRows e.2 updates)), by
      rw [List.map_map]
      exact s.views.nodup⟩ }

/-- `broker_list_dslink_send_cache`. -/
def sendCache (s : RemoteList) : RemoteList := s.sendAll (getCache s.updatesCache)

/-- The state of the loop over the rows of a response: the broker, the cache and `cache_need_reset`. -/
structure Loop where
  site : Site
  cache : Metadata
  cacheNeedReset : Bool

/-- The cache is cleared once for all clearing rows of a response. -/
def Loop.reset (p : Loop) (d : DownId) (link : RemoteDSLink Json) (remotePath : CString) : Loop :=
  if p.cacheNeedReset then
    { p with cache := p.site.resetRemoteCache d link remotePath, cacheNeedReset := false }
  else p

/-- The path of the node with a text behind it, in a buffer of 512 bytes. -/
def basePath (σ : Site) (d : DownId) (originalBase : CString) : Option CString := do
  let node ← σ.base.dnode.get d
  if (node.path ++ originalBase).length < 512 then some (node.path ++ originalBase) else none

/-- The block for `$is` on the root of a link: the profile of a link, or the node becomes a broker. The texts that are
    compared have to be there. -/
def rootIs (p : Loop) (d : DownId) (value : Option Json) : Option Loop := do
  let isValue ← value.bind Json.stringValue
  if isValue ≠ cstr "dsa/broker" then
    let cache := p.cache.set (cstr "$is") (.string (cstr "dsa/link"))
    some { p with cache := Site.setIfAny cache (cstr "$$dsId") ((p.site.metadata (.downstream d)).get (cstr "$$dsId")) }
  else
    let broker : Metadata := (p.site.metadata (.downstream d)).set (cstr "$is") (.string (cstr "dsa/broker"))
    let site : Site := { p.site with metadata := Function.update p.site.metadata (.downstream d) broker }
    let p' : Loop := { p with cache := Site.setIfAny p.cache (cstr "$is") value }
    match (p.site.metadata (.downstream d)).get (cstr "$is") with
    | none => some { p' with site := site }
    | some profile => do
      let text ← profile.stringValue
      some (if text ≠ cstr "dsa/broker" then { p' with site := site } else p')

/-- One row of a response in `broker_list_dslink_response`. -/
def responseRow (d : DownId) (link : RemoteDSLink Json) (remotePath : CString) (p : Loop) (row : Json) : Option Loop := do
  match ← listRow row with
  | .set name value =>
    if name = cstr "$base" then
      let p := p.reset d link remotePath
      match value.bind Json.stringValue with
      | none => some p
      | some originalBase => do
        let text ← basePath p.site d originalBase
        some { p with cache := p.cache.set (cstr "$base") (.string text) }
    else if name = cstr "$is" then
      let p := p.reset d link remotePath
      if remotePath = [slash] then rootIs p d value else some { p with cache := Site.setIfAny p.cache name value }
    else some { p with cache := Site.setIfAny p.cache name value }
  | .remove name => some { p with cache := p.cache.erase name }
  | .other => some p

/-- The elements of an array. -/
def rowsOf : Option Json → List Json
  | some (.array rows) => rows
  | _ => []

/-- `broker_list_dslink_response` for the stream of `remotePath` at the node `d`, with the broker it leaves. -/
def listResponse (d : DownId) (remotePath : CString) (σ : Site) (link : RemoteDSLink Json) (updates : Option Json)
    (s : RemoteList) : Option (Site × RemoteList) := do
  let p ← (rowsOf updates).foldlM (responseRow d link remotePath) ⟨σ, s.updatesCache, true⟩
  let s := { s with updatesCache := p.cache }
  if s.cacheSent then some (p.site, s.sendAll (some (rowsOf updates))) else some (p.site, s.sendCache)

/-- `broker_stream_list_reset_remote_cache` without a link. -/
def resetDisconnected (d : DownId) (remotePath : CString) (σ : Site) (ts : CString) (s : RemoteList) : RemoteList :=
  let cache := AssocMap.empty.set (cstr "$disconnectedTs") (.string ts)
  { s with
    updatesCache := if remotePath = [slash] then Site.setIfAny cache (cstr "$$group") (σ.groups d) else cache
    cacheSent := false }

/-- `broker_stream_list_disconnect`. -/
def disconnect (d : DownId) (remotePath : CString) (σ : Site) (ts : CString) (s : RemoteList) : RemoteList :=
  (s.resetDisconnected d remotePath σ ts).sendCache

/-- A requester is added and is sent the cache. -/
def join (s : RemoteList) (r : Nat) : RemoteList :=
  { s with views := s.views.set r (viewRows (fun _ => none) (getCache s.updatesCache)) }

end RemoteList

/-- What happens to the stream. A connect sends a list request to the responder. -/
inductive ListEvent
  | response (σ : Site) (link : RemoteDSLink Json) (updates : Option Json)
  | disconnect (σ : Site) (ts : CString)
  | connect
  | join (r : Nat)
  | leave (r : Nat)

namespace RemoteList

/-- One event on the list stream of `remotePath` at `d`. -/
def step (d : DownId) (remotePath : CString) (s : RemoteList) : ListEvent → Option RemoteList
  | .response σ link updates => (s.listResponse d remotePath σ link updates).map Prod.snd
  | .disconnect σ ts => some (s.disconnect d remotePath σ ts)
  | .connect => some s
  | .join r => some (s.join r)
  | .leave r => some { s with views := s.views.erase r }

/-- `broker_stream_list_init`. -/
def init : RemoteList := ⟨.empty, false, .empty⟩

/-- The views of the requesters are the cache. -/
def Converged (s : RemoteList) : Prop := ∀ r view, s.views.get r = some view → ∀ n, view n = s.updatesCache.get n

end RemoteList

/-! ## What the rows of the cache do to a view -/

/-- The cache has one of the members that clear a view. -/
def Marked (cache : Metadata) : Prop := (cache.get (cstr "$base")).isSome ∨ (cache.get (cstr "$is")).isSome

/-- No other member points to the value of `$base` or of `$is`. -/
def Unshared (cache : Metadata) : Prop :=
  ∀ k v n w, clears k = true → cache.get k = some v → clears n = false → cache.get n = some w → w.shared v = false

@[simp] theorem listRow_addToUpdate (k : CString) (v : Json) : listRow (addToUpdate k v) = some (.set k (some v)) := rfl

theorem clears_iff {n : CString} : clears n = true ↔ n = cstr "$base" ∨ n = cstr "$is" := by
  simp [clears]

/-- Rows that set names, none of them a clearing one, lie over the view. -/
theorem foldl_viewRow {es : List (CString × Json)} (hn : (es.map Prod.fst).Nodup)
    (hc : ∀ e ∈ es, clears e.1 = false) (view : View) (fresh : Bool) (n : CString) :
    ((es.map (fun e => addToUpdate e.1 e.2)).foldl viewRow (view, fresh)).1 n =
      (AssocMap.lookupIn n es).or (view n) := by
  induction es generalizing view with
  | nil => rfl
  | cons e es ih =>
    obtain ⟨hnotin, hn⟩ := List.nodup_cons.mp hn
    obtain ⟨hce, hces⟩ := List.forall_mem_cons.mp hc
    have hrow : viewRow (view, fresh) (addToUpdate e.1 e.2) = (Function.update view e.1 (some e.2), fresh) := by
      simp [viewRow, hce]
    rw [List.map_cons, List.foldl_cons, hrow, ih hn hces]
    by_cases hk : n = e.1
    · subst hk
      rw [AssocMap.lookupIn_eq_none hnotin]
      simp [AssocMap.lookupIn]
    · simp [AssocMap.lookupIn, hk, Ne.symm hk]

theorem lookupIn_later (cache : Metadata) (n : CString) :
    AssocMap.lookupIn n (cache.entries.filter (laterMember cache)) =
      (cache.get n).filter (fun v => laterMember cache (n, v)) := by
  have hn : ((cache.entries.filter (laterMember cache)).map Prod.fst).Nodup :=
    cache.nodup.sublist (List.filter_sublist.map _)
  refine Option.ext fun v => ?_
  rw [AssocMap.lookupIn_eq_some hn, List.mem_filter, AssocMap.mem_entries, Option.filter_eq_some_iff]

/-- The rows behind the first ones. -/
theorem foldl_later (cache : Metadata) (view : View) (fresh : Bool) (n : CString) :
    (((cache.entries.filter (laterMember cache)).map (fun e => addToUpdate e.1 e.2)).foldl viewRow (view, fresh)).1 n =
      ((cache.get n).filter (fun v => laterMember cache (n, v))).or (view n) := by
  rw [foldl_viewRow (cache.nodup.sublist (List.filter_sublist.map _)), lookupIn_later]
  intro e he
  have hlater := (List.mem_filter.mp he).2
  simp only [laterMember, Bool.and_eq_true, Bool.not_eq_true'] at hlater
  exact hlater.1.1

theorem base_ne_is : cstr "$base" ≠ cstr "$is" := by decide

theorem clears_eq_false {n : CString} (h : clears n = false) : n ≠ cstr "$base" ∧ n ≠ cstr "$is" := by
  refine ⟨?_, ?_⟩ <;> rintro rfl <;> exact absurd h (by decide)

/-- The first rows leave the clearing members in the view and nothing else. -/
theorem foldl_firstRows {cache : Metadata} (hm : Marked cache) (view : View) : ∃ v : View,
    (firstRow cache (cstr "$is")).foldl viewRow ((firstRow cache (cstr "$base")).foldl viewRow (view, true)) =
      (v, false) ∧ ∀ n, v n = if clears n then cache.get n else none := by
  have hbaseRow : clears (cstr "$base") = true := by decide
  have hisRow : clears (cstr "$is") = true := by decide
  -- a view that has the two members and nothing else
  have hview : ∀ v : View, v (cstr "$base") = cache.get (cstr "$base") → v (cstr "$is") = cache.get (cstr "$is") →
      (∀ n, n ≠ cstr "$base" → n ≠ cstr "$is" → v n = none) → ∀ n, v n = if clears n then cache.get n else none := by
    intro v hvbase hvis hvother n
    cases hc : clears n with
    | true => rcases clears_iff.mp hc with rfl | rfl <;> assumption
    | false => exact hvother n (clears_eq_false hc).1 (clears_eq_false hc).2
  cases hbase : cache.get (cstr "$base") with
  | none =>
    cases his : cache.get (cstr "$is") with
    | none =>
      rw [Marked, hbase, his] at hm
      simp at hm
    | some v =>
      refine ⟨Function.update (fun _ => none) (cstr "$is") (some v), ?_, hview _ ?_ ?_ ?_⟩
      · simp [firstRow, hbase, his, viewRow, hisRow]
      · simp [base_ne_is, hbase]
      · simp [his]
      · intro n _ hn
        simp [hn]
  | some b =>
    cases his : cache.get (cstr "$is") with
    | none =>
      refine ⟨Function.update (fun _ => none) (cstr "$base") (some b), ?_, hview _ ?_ ?_ ?_⟩
      · simp [firstRow, hbase, his, viewRow, hbaseRow]
      · simp [hbase]
      · simp [base_ne_is.symm, his]
      · intro n hn _
        simp [hn]
    | some v =>
      refine ⟨Function.update (Function.update (fun _ => none) (cstr "$base") (some b)) (cstr "$is") (some v), ?_,
        hview _ ?_ ?_ ?_⟩
      · simp [firstRow, hbase, his, viewRow, hbaseRow]
      · simp [base_ne_is, hbase]
      · simp [his]
      · intro n hn hn'
        simp [hn, hn']

/-- A cache with a clearing member gives every view its own content, if no value is shared. -/
theorem viewRows_marked {cache : Metadata} (hm : Marked cache) (hu : Unshared cache) (view : View) (n : CString) :
    viewRows view (getCache cache) n = cache.get n := by
  have hsize : cache.size ≠ 0 := by
    intro h0
    have hnone := AssocMap.size_eq_zero.mp h0
    rcases hm with hm | hm <;> rw [hnone] at hm <;> cases hm
  have hlater : (cache.get n).filter (fun v => laterMember cache (n, v)) = if clears n then none else cache.get n := by
    cases hget : cache.get n with
    | none => cases clears n <;> rfl
    | some w =>
      cases hc : clears n with
      | true => simp [Option.filter, laterMember, hc]
      | false =>
        have hshare : ∀ k, clears k = true → (cache.get k).any w.shared = false := by
          intro k hk
          cases hv : cache.get k with
          | none => rfl
          | some v => exact hu k v n w hk hv hc hget
        simp [Option.filter, laterMember, hc, hshare _ (by decide : clears (cstr "$base") = true),
          hshare _ (by decide : clears (cstr "$is") = true)]
  obtain ⟨v, hv, hvget⟩ := foldl_firstRows hm view
  rw [viewRows, getCache, if_neg hsize, Option.getD_some, List.foldl_append, List.foldl_append, hv, foldl_later, hlater,
    hvget]
  cases clears n with
  | true => rfl
  | false => exact Option.or_none

/-- A cache without a clearing member lies over a view. -/
theorem viewRows_unmarked {cache : Metadata} (hm : ¬ Marked cache) (view : View) (n : CString) :
    viewRows view (getCache cache) n = (cache.get n).or (view n) := by
  obtain ⟨hbase, his⟩ := not_or.mp hm
  have hbase : cache.get (cstr "$base") = none := by simpa using hbase
  have his : cache.get (cstr "$is") = none := by simpa using his
  rw [viewRows, getCache]
  split
  · rename_i h0
    rw [AssocMap.size_eq_zero.mp h0 n]
    rfl
  · have hall : (cache.get n).filter (fun v => laterMember cache (n, v)) = cache.get n := by
      cases hget : cache.get n with
      | none => rfl
      | some w =>
        have hc : clears n = false := by
          cases hc : clears n with
          | false => rfl
          | true =>
            rcases clears_iff.mp hc with rfl | rfl
            · rw [hbase] at hget
              cases hget
            · rw [his] at hget
              cases hget
        simp [Option.filter, laterMember, hc, hbase, his]
    rw [Option.getD_some, List.foldl_append, List.foldl_append]
    have hfirst : firstRow cache (cstr "$base") = [] ∧ firstRow cache (cstr "$is") = [] := by
      simp [firstRow, hbase, his]
    rw [hfirst.1, hfirst.2, List.foldl_nil, List.foldl_nil, foldl_later, hall]

/-! ## What a response leaves in the cache -/

theorem get_setIfAny (cache : Metadata) (key : CString) (value : Option Json) (n : CString) :
    (Site.setIfAny cache key value).get n = if n = key then value.or (cache.get n) else cache.get n := by
  cases value with
  | none =>
    show cache.get n = _
    split <;> rfl
  | some v => exact AssocMap.get_set cache key n v

section

variable (d : DownId) (remotePath : CString) (σ : Site) (link : RemoteDSLink Json)

/-- The row clears the cache, or would if it was the first one. -/
def rowClears (row : Json) : Bool :=
  match listRow row with
  | some (.set name _) => clears name
  | _ => false

/-- What the comparison of pointers sees of a member: nothing, an object of its own, or the one object of a literal. -/
def seen (value : Option Json) : Option (Option (Option Bool)) := value.map Json.literal

/-- What the row `[name, value]` writes at `n`: `$base` has to be a text, and `$is` of the root of a link brings the
    dsId of the node with it. -/
def writes (n name : CString) (value : Option Json) : Option (Option (Option Bool)) :=
  if name = cstr "$base" then if n = name then (value.bind Json.stringValue).map (fun _ => none) else none
  else if name = cstr "$is" ∧ remotePath = [slash] then
    if n = name then some none
    else if n = cstr "$$dsId" ∧ value.bind Json.stringValue ≠ some (cstr "dsa/broker") then
      seen ((σ.metadata (.downstream d)).get n)
    else none
  else if n = name then seen value else none

/-- What is at `n` behind a row, and whether the cache is still the old one. -/
def remainsStep (n : CString) (p : Option (Option (Option Bool)) × Bool) (row : Json) :
    Option (Option (Option Bool)) × Bool :=
  match listRow row with
  | some (.set name value) =>
    let before := if clears name && p.2 then seen ((σ.resetRemoteCache d link remotePath).get n) else p.1
    ((writes d remotePath σ n name value).or before, p.2 && !clears name)
  | some (.remove name) => (if n = name then none else p.1, p.2)
  | _ => p

/-- What is at `n` in the cache after the rows of a response. -/
def remains (cache : Metadata) (rows : List Json) (n : CString) : Option (Option (Option Bool)) :=
  (rows.foldl (remainsStep d remotePath σ link n) (seen (cache.get n), true)).1

/-- The loop over the rows of a response, after the rows `done`. -/
structure LoopAt (cache : Metadata) (done : List Json) (p : RemoteList.Loop) : Prop where
  fresh : p.cacheNeedReset = !done.any rowClears
  site : p.cacheNeedReset = true → p.site = σ
  dsId : (p.site.metadata (.downstream d)).get (cstr "$$dsId") = (σ.metadata (.downstream d)).get (cstr "$$dsId")
  remains : ∀ n, done.foldl (remainsStep d remotePath σ link n) (seen (cache.get n), true) =
    (seen (p.cache.get n), p.cacheNeedReset)

end

section

variable {d : DownId} {remotePath : CString} {σ : Site} {link : RemoteDSLink Json} {cache : Metadata}
  {done : List Json} {row : Json} {p p' q : RemoteList.Loop}

/-- The state between the reset of a row and what the row writes. -/
def afterReset (d : DownId) (remotePath : CString) (link : RemoteDSLink Json) (p : RemoteList.Loop) (row : Json) :
    RemoteList.Loop := if rowClears row then p.reset d link remotePath else p

/-- What a row that sets a name does: behind the reset it writes some members. -/
inductive Written (d : DownId) (remotePath : CString) (q : RemoteList.Loop) : CString → Option Json → RemoteList.Loop → Prop
  | baseText {value : Option Json} {text base : CString} (hvalue : value.bind Json.stringValue = some base) :
      Written d remotePath q (cstr "$base") value { q with cache := q.cache.set (cstr "$base") (.string text) }
  | baseOther {value : Option Json} (hvalue : value.bind Json.stringValue = none) :
      Written d remotePath q (cstr "$base") value q
  | linkRoot {value : Option Json} {text : CString} (hroot : remotePath = [slash])
      (hvalue : value.bind Json.stringValue = some text) (hne : text ≠ cstr "dsa/broker") :
      Written d remotePath q (cstr "$is") value { q with
        cache := Site.setIfAny (q.cache.set (cstr "$is") (.string (cstr "dsa/link"))) (cstr "$$dsId")
          ((q.site.metadata (.downstream d)).get (cstr "$$dsId")) }
  | brokerRoot {value : Option Json} {site : Site} (hroot : remotePath = [slash])
      (hvalue : value.bind Json.stringValue = some (cstr "dsa/broker"))
      (hsite : (site.metadata (.downstream d)).get (cstr "$$dsId") =
        (q.site.metadata (.downstream d)).get (cstr "$$dsId")) :
      Written d remotePath q (cstr "$is") value { q with
        site := site, cache := Site.setIfAny q.cache (cstr "$is") value }
  | plain {name : CString} {value : Option Json} (hbase : name ≠ cstr "$base")
      (hroot : ¬ (name = cstr "$is" ∧ remotePath = [slash])) :
      Written d remotePath q name value { q with cache := Site.setIfAny q.cache name value }

theorem rootIs_written {value : Option Json} (hroot : remotePath = [slash])
    (hs : RemoteList.rootIs q d value = some p') : Written d remotePath q (cstr "$is") value p' := by
  have hdsId : cstr "$$dsId" ≠ cstr "$is" := by decide
  rw [RemoteList.rootIs] at hs
  obtain ⟨text, htext, hs⟩ := Option.bind_eq_some_iff.mp hs
  split at hs
  · rename_i hne
    cases hs
    exact .linkRoot hroot htext hne
  · rename_i heq
    rw [not_not.mp heq] at htext
    split at hs
    · cases hs
      refine .brokerRoot hroot htext ?_
      simp [AssocMap.get_set_ne hdsId]
    · obtain ⟨profile, -, hs⟩ := Option.bind_eq_some_iff.mp hs
      cases hs
      split
      · refine .brokerRoot hroot htext ?_
        simp [AssocMap.get_set_ne hdsId]
      · exact .brokerRoot hroot htext rfl

/-- One row: nothing, a removal, or a reset and what is written behind it. -/
theorem responseRow_cases (hs : RemoteList.responseRow d link remotePath p row = some p') :
    (listRow row = some .other ∧ p' = p) ∨
    (∃ name, listRow row = some (.remove name) ∧ p' = { p with cache := p.cache.erase name }) ∨
    ∃ name value, listRow row = some (.set name value) ∧
      Written d remotePath (afterReset d remotePath link p row) name value p' := by
  simp only [RemoteList.responseRow, Option.bind_eq_bind, Option.bind_eq_some_iff] at hs
  obtain ⟨r, hr, hs⟩ := hs
  cases r with
  | other =>
    cases hs
    exact .inl ⟨hr, rfl⟩
  | remove name =>
    cases hs
    exact .inr (.inl ⟨name, hr, rfl⟩)
  | set name value =>
    refine .inr (.inr ⟨name, value, hr, ?_⟩)
    have hafter : afterReset d remotePath link p row = if clears name then p.reset d link remotePath else p := by
      simp [afterReset, rowClears, hr]
    dsimp only at hs
    split at hs
    · rename_i hname
      subst hname
      rw [hafter, if_pos (by decide)]
      split at hs
      · rename_i hvalue
        cases hs
        exact .baseOther hvalue
      · rename_i base hvalue
        obtain ⟨text, -, hs⟩ := Option.bind_eq_some_iff.mp hs
        cases hs
        exact .baseText hvalue
    · rename_i hbase
      split at hs
      · rename_i hname
        subst hname
        rw [hafter, if_pos (by decide)]
        split at hs
        · exact rootIs_written ‹_› hs
        · rename_i hroot
          cases hs
          exact .plain hbase (fun h => hroot h.2)
      · rename_i his
        cases hs
        rw [hafter, if_neg]
        · exact .plain hbase (fun h => his h.1)
        · intro hc
          rcases clears_iff.mp hc with rfl | rfl
          · exact hbase rfl
          · exact his rfl

theorem Written.needReset {name : CString} {value : Option Json} (h : Written d remotePath q name value p') :
    p'.cacheNeedReset = q.cacheNeedReset := by
  cases h <;> rfl

theorem Written.dsId {name : CString} {value : Option Json} (h : Written d remotePath q name value p') :
    (p'.site.metadata (.downstream d)).get (cstr "$$dsId") = (q.site.metadata (.downstream d)).get (cstr "$$dsId") := by
  cases h with
  | brokerRoot _ _ hsite => exact hsite
  | _ => rfl

/-- Only the row `$is` changes the rest of the broker. -/
theorem Written.site {name : CString} {value : Option Json} (h : Written d remotePath q name value p')
    (hname : clears name = false) : p'.site = q.site := by
  cases h with
  | brokerRoot => exact absurd hname (by decide)
  | _ => rfl

theorem seen_setIfAny (cache : Metadata) (key : CString) (value : Option Json) (n : CString) :
    seen ((Site.setIfAny cache key value).get n) = (if n = key then seen value else none).or (seen (cache.get n)) := by
  rw [get_setIfAny]
  split
  · cases value <;> rfl
  · rfl

theorem Written.remains {name : CString} {value : Option Json} (h : Written d remotePath q name value p')
    (hdsId : (q.site.metadata (.downstream d)).get (cstr "$$dsId") =
      (σ.metadata (.downstream d)).get (cstr "$$dsId")) (n : CString) :
    seen (p'.cache.get n) = (writes d remotePath σ n name value).or (seen (q.cache.get n)) := by
  have hisBase : cstr "$is" ≠ cstr "$base" := by decide
  cases h with
  | baseText hvalue =>
    rw [writes, if_pos rfl, hvalue, AssocMap.get_set]
    split <;> rfl
  | baseOther hvalue =>
    rw [writes, if_pos rfl, hvalue]
    split <;> rfl
  | linkRoot hroot hvalue hne =>
    rw [writes, if_neg hisBase, if_pos ⟨rfl, hroot⟩, seen_setIfAny, AssocMap.get_set, hvalue, hdsId]
    by_cases hn : n = cstr "$is"
    · have hisDsId : cstr "$is" ≠ cstr "$$dsId" := by decide
      simp [hn, hisDsId, seen, Json.literal]
    · by_cases hn' : n = cstr "$$dsId"
      · rw [hn'] at hn
        simp [hn', hn, hne]
      · simp [hn, hn']
  | brokerRoot hroot hvalue hsite =>
    obtain ⟨v, rfl, hv⟩ := Option.bind_eq_some_iff.mp hvalue
    rw [writes, if_neg hisBase, if_pos ⟨rfl, hroot⟩, seen_setIfAny, hvalue]
    have hliteral : seen (some v) = some none := by
      cases v <;> first | rfl | cases hv
    by_cases hn : n = cstr "$is" <;> simp [hn, hliteral]
  | plain hbase hroot =>
    rw [writes, if_neg hbase, if_neg hroot, seen_setIfAny]

theorem afterReset_site : (afterReset d remotePath link p row).site = p.site := by
  unfold afterReset RemoteList.Loop.reset
  split
  · split <;> rfl
  · rfl

theorem afterReset_needReset : (afterReset d remotePath link p row).cacheNeedReset =
    (p.cacheNeedReset && !rowClears row) := by
  unfold afterReset RemoteList.Loop.reset
  cases hc : rowClears row with
  | false => simp
  | true =>
    cases hneed : p.cacheNeedReset with
    | true => simp
    | false => simp [hneed]

theorem afterReset_cache (hsite : p.cacheNeedReset = true → p.site = σ) :
    (afterReset d remotePath link p row).cache =
      if rowClears row && p.cacheNeedReset then σ.resetRemoteCache d link remotePath else p.cache := by
  unfold afterReset RemoteList.Loop.reset
  cases hc : rowClears row with
  | false => rfl
  | true =>
    cases hneed : p.cacheNeedReset with
    | true => simp [hsite hneed]
    | false => simp

/-- One row of a response keeps what is said of the loop. -/
theorem LoopAt.step (h : LoopAt d remotePath σ link cache done p)
    (hs : RemoteList.responseRow d link remotePath p row = some p') :
    LoopAt d remotePath σ link cache (done ++ [row]) p' := by
  have hfresh : ∀ b, p'.cacheNeedReset = (p.cacheNeedReset && !b) → rowClears row = b →
      p'.cacheNeedReset = !(done ++ [row]).any rowClears := by
    intro b hb hrow
    rw [hb, h.fresh, List.any_append, List.any_cons, List.any_nil, hrow]
    simp
  have hfold : ∀ n, (done ++ [row]).foldl (remainsStep d remotePath σ link n) (seen (cache.get n), true) =
      remainsStep d remotePath σ link n (seen (p.cache.get n), p.cacheNeedReset) row := by
    intro n
    rw [List.foldl_append, h.remains n]
    rfl
  rcases responseRow_cases hs with ⟨hrow, rfl⟩ | ⟨name, hrow, rfl⟩ | ⟨name, value, hrow, hwritten⟩
  · have hclears : rowClears row = false := by simp [rowClears, hrow]
    refine ⟨hfresh false (by simp) hclears, h.site, h.dsId, fun n => ?_⟩
    rw [hfold, remainsStep, hrow]
  · have hclears : rowClears row = false := by simp [rowClears, hrow]
    refine ⟨hfresh false (by simp) hclears, h.site, h.dsId, fun n => ?_⟩
    rw [hfold, remainsStep, hrow, AssocMap.get_erase]
    dsimp only
    split <;> rfl
  · have hclears : rowClears row = clears name := by simp [rowClears, hrow]
    have hneed : _ = (p.cacheNeedReset && !rowClears row) := hwritten.needReset.trans afterReset_needReset
    refine ⟨hfresh _ hneed rfl, fun hn => ?_, ?_, fun n => ?_⟩
    · rw [hneed, Bool.and_eq_true, Bool.not_eq_true', hclears] at hn
      rw [hwritten.site hn.2, afterReset_site]
      exact h.site hn.1
    · rw [hwritten.dsId, afterReset_site]
      exact h.dsId
    · have hq := hwritten.remains (σ := σ) (by rw [afterReset_site]; exact h.dsId) n
      rw [afterReset_cache h.site] at hq
      rw [hfold, remainsStep, hrow, hq, hneed, hclears]
      refine Prod.ext ?_ rfl
      dsimp only
      split <;> rfl

/-- The whole loop. -/
theorem loopAt_rows (σ : Site) (cache : Metadata) {rows : List Json}
    (hs : rows.foldlM (RemoteList.responseRow d link remotePath) ⟨σ, cache, true⟩ = some p) :
    LoopAt d remotePath σ link cache rows p := by
  have hrest : ∀ (done : List Json) (p0 : RemoteList.Loop), LoopAt d remotePath σ link cache done p0 →
      rows.foldlM (RemoteList.responseRow d link remotePath) p0 = some p →
      LoopAt d remotePath σ link cache (done ++ rows) p := by
    clear hs
    induction rows with
    | nil =>
      intro done p0 h0 hs
      cases hs
      rw [List.append_nil]
      exact h0
    | cons row rows ih =>
      intro done p0 h0 hs
      obtain ⟨p1, h1, hs⟩ := Option.bind_eq_some_iff.mp hs
      have hdone := ih (done ++ [row]) p1 (h0.step h1) hs
      rwa [List.append_assoc] at hdone
  exact hrest [] _ ⟨rfl, fun _ => rfl, rfl, fun _ => rfl⟩ hs

end

/-! ## The views of a run -/

namespace ListEvent

/-- The list `seen` of what is at each name has one of the two clearing names. -/
def HasMark (seen : CString → Option (Option (Option Bool))) : Prop :=
  (seen (cstr "$base")).isSome ∨ (seen (cstr "$is")).isSome

/-- No name has the literal that a clearing name has. -/
def Apart (seen : CString → Option (Option (Option Bool))) : Prop :=
  ∀ k n l, clears k = true → clears n = false → seen k = some (some l) → seen n ≠ some (some l)

/-- The event does not lose a member without a clearing row behind it, and no literal of a clearing row is one of
    another row. -/
def Kept (d : DownId) (remotePath : CString) (s : RemoteList) : ListEvent → Prop
  | .response σ link updates =>
    let after := remains d remotePath σ link s.updatesCache (RemoteList.rowsOf updates)
    s.views.size = 0 ∨ (HasMark after → Apart after) ∧
      (¬ HasMark after → ∀ n, (s.updatesCache.get n).isSome → (after n).isSome)
  | .disconnect σ _ => s.views.size = 0 ∨ ∀ n, (s.updatesCache.get n).isSome →
      n = cstr "$disconnectedTs" ∨ (remotePath = [slash] ∧ n = cstr "$$group" ∧ (σ.groups d).isSome)
  | .join _ => Marked s.updatesCache → Unshared s.updatesCache
  | .connect => True
  | .leave _ => True

end ListEvent

namespace RemoteList

variable {s s' : RemoteList} {d : DownId} {remotePath : CString}

theorem get_sendAll (s : RemoteList) (updates : Option (List Json)) (r : Nat) :
    (s.sendAll updates).views.get r = (s.views.get r).map (fun view => viewRows view updates) := by
  refine Option.ext fun view => ?_
  rw [← AssocMap.mem_entries, Option.map_eq_some_iff]
  show (r, view) ∈ s.views.entries.map _ ↔ _
  rw [List.mem_map]
  constructor
  · rintro ⟨e, he, heq⟩
    cases heq
    exact ⟨e.2, AssocMap.mem_entries.mp he, rfl⟩
  · rintro ⟨view, hget, rfl⟩
    exact ⟨(r, view), AssocMap.mem_entries.mpr hget, rfl⟩

/-- Views that are the old cache are the new one after a message with the whole cache. -/
theorem converged_sendCache (old : Metadata)
    (hold : ∀ r view, s.views.get r = some view → ∀ n, view n = old.get n)
    (hsent : s.views.size = 0 ∨ (Marked s.updatesCache → Unshared s.updatesCache) ∧
      (¬ Marked s.updatesCache → ∀ n, (old.get n).isSome → (s.updatesCache.get n).isSome)) :
    s.sendCache.Converged := by
  intro r view hview n
  rw [sendCache, get_sendAll, Option.map_eq_some_iff] at hview
  obtain ⟨view, hget, rfl⟩ := hview
  show _ = s.updatesCache.get n
  rcases hsent with h0 | ⟨hmarked, hunmarked⟩
  · rw [AssocMap.size_eq_zero.mp h0 r] at hget
    cases hget
  · by_cases hm : Marked s.updatesCache
    · exact viewRows_marked hm (hmarked hm) view n
    · rw [viewRows_unmarked hm, hold r view hget n]
      cases hnew : s.updatesCache.get n with
      | some v => rfl
      | none =>
        -- a name the cache does not have is not in the view either
        cases hn : old.get n with
        | none => rfl
        | some v =>
          have hsome := hunmarked hm n (by rw [hn]; rfl)
          rw [hnew] at hsome
          cases hsome

theorem Converged.disconnect (hc : s.Converged) (σ : Site) (ts : CString)
    (hkept : (ListEvent.disconnect σ ts).Kept d remotePath s) : (s.disconnect d remotePath σ ts).Converged := by
  have hget : ∀ n, (s.resetDisconnected d remotePath σ ts).updatesCache.get n =
      if n = cstr "$$group" ∧ remotePath = [slash] then σ.groups d
      else if n = cstr "$disconnectedTs" then some (.string ts) else none := by
    intro n
    have hts : cstr "$$group" ≠ cstr "$disconnectedTs" := by decide
    by_cases hroot : remotePath = [slash]
    · have hcache : (s.resetDisconnected d remotePath σ ts).updatesCache =
          Site.setIfAny (AssocMap.empty.set (cstr "$disconnectedTs") (.string ts)) (cstr "$$group") (σ.groups d) :=
        if_pos hroot
      rw [hcache, get_setIfAny, AssocMap.get_set]
      by_cases hn : n = cstr "$$group" <;> simp [hn, hts, hroot]
    · have hcache : (s.resetDisconnected d remotePath σ ts).updatesCache =
          AssocMap.empty.set (cstr "$disconnectedTs") (.string ts) := if_neg hroot
      rw [hcache, AssocMap.get_set]
      simp [hroot]
  show (s.resetDisconnected d remotePath σ ts).sendCache.Converged
  refine converged_sendCache s.updatesCache hc ?_
  refine hkept.imp_right fun hnames => ⟨?_, fun _ n hn => ?_⟩
  · rintro (hm | hm)
    · rw [hget, if_neg (fun h => absurd h.1 (by decide)), if_neg (by decide)] at hm
      cases hm
    · rw [hget, if_neg (fun h => absurd h.1 (by decide)), if_neg (by decide)] at hm
      cases hm
  · rw [hget]
    rcases hnames n hn with rfl | ⟨hroot, rfl, hgroups⟩
    · rw [if_neg (fun h => absurd h.1 (by decide)), if_pos rfl]
      rfl
    · rwa [if_pos ⟨rfl, hroot⟩]

theorem Converged.response (hc : s.Converged) (hsent : s.cacheSent = false) {σ σ' : Site} {link : RemoteDSLink Json}
    {updates : Option Json} (hkept : (ListEvent.response σ link updates).Kept d remotePath s)
    (hs : s.listResponse d remotePath σ link updates = some (σ', s')) : s'.Converged ∧ s'.cacheSent = false := by
  rw [listResponse] at hs
  obtain ⟨p, hp, hs⟩ := Option.bind_eq_some_iff.mp hs
  rw [if_neg (by simp [hsent])] at hs
  cases hs
  refine ⟨converged_sendCache s.updatesCache hc ?_, hsent⟩
  -- what is said of the rows is what is in the cache
  have hafter : remains d remotePath σ link s.updatesCache (rowsOf updates) = fun n => seen (p.cache.get n) := by
    funext n
    rw [remains, (loopAt_rows σ s.updatesCache hp).remains n]
  have hisSome : ∀ n, (seen (p.cache.get n)).isSome = (p.cache.get n).isSome := fun n => Option.isSome_map
  have hmark : ListEvent.HasMark (fun n => seen (p.cache.get n)) ↔ Marked p.cache := by
    simp only [ListEvent.HasMark, Marked, hisSome]
  simp only [ListEvent.Kept, hafter, hmark, hisSome] at hkept
  refine hkept.imp_right fun h => ⟨fun hm k v n w hk hv hn hw => ?_, h.2⟩
  have happart := h.1 hm k n
  cases hl : w.literal with
  | none => simp [Json.shared, hl]
  | some l =>
    have hne : v.literal ≠ some l := fun hvl =>
      happart l hk hn (by simp [seen, hv, hvl]) (by simp [seen, hw, hl])
    simp [Json.shared, hl, Ne.symm hne]

/-- One event keeps the views at the cache. -/
theorem Converged.step (hc : s.Converged) (hsent : s.cacheSent = false) {e : ListEvent} (hkept : e.Kept d remotePath s)
    (hs : s.step d remotePath e = some s') : s'.Converged ∧ s'.cacheSent = false := by
  cases e with
  | response σ link updates =>
    obtain ⟨⟨σ', t⟩, ht, rfl⟩ := Option.map_eq_some_iff.mp hs
    exact hc.response hsent hkept ht
  | disconnect σ ts =>
    cases hs
    exact ⟨hc.disconnect σ ts hkept, rfl⟩
  | connect =>
    cases hs
    exact ⟨hc, hsent⟩
  | join r =>
    cases hs
    refine ⟨fun r' view hview n => ?_, hsent⟩
    rw [join, AssocMap.get_set] at hview
    split at hview
    · cases hview
      by_cases hm : Marked s.updatesCache
      · exact viewRows_marked hm (hkept hm) _ n
      · exact (viewRows_unmarked hm _ n).trans Option.or_none
    · exact hc r' view hview n
  | leave r =>
    cases hs
    exact ⟨fun r' view hview => hc r' view (AssocMap.get_erase_eq_some.mp hview).2, hsent⟩

end RemoteList

/-- In a run whose events lose no member without a clearing row behind it, every requester of the list stream of a
    downstream path sees the cache. -/
theorem list_views_converge (d : DownId) (remotePath : CString) (s : RemoteList)
    (h : Reach (RemoteList.step d remotePath) (fun s e => e.Kept d remotePath s) (· = RemoteList.init) s) :
    s.Converged := by
  have hrun := Reach.invariant (fun s : RemoteList => s.Converged ∧ s.cacheSent = false) ?_ ?_ h
  · exact hrun.1
  · rintro s rfl
    exact ⟨fun r view hview => by simp [RemoteList.init] at hview, rfl⟩
  · rintro s e s' ⟨hc, hsent⟩ hkept hs
    exact hc.step hsent hkept hs


/-- A response with the profile of a node and one more row. -/
def nodeRows : Json := .array [.array [.string (cstr "$is"), .string (cstr "node")], .array [.string (cstr "x"), .null]]

/-- The link of the node `x` that `twoLinks` connects. -/
def linkOfX : RemoteDSLink Json := ⟨some (cstr "/downstream/x"), 0, []⟩

/-- A requester lists `/a` on the link `x` and the link answers. -/
def answered (σ : Site) : Option RemoteList :=
  (RemoteList.init.join 0).step 1 (cstr "/a") (.response σ linkOfX nodeRows)

theorem list_views_converge_response : ∃ (s : RemoteList) (view : View), s.views.get 0 = some view ∧
    (s.updatesCache.get (cstr "x")).isSome ∧ view (cstr "x") = s.updatesCache.get (cstr "x") := by
  obtain ⟨base, -, hcheck⟩ := Reach.of_eval (Broker.step Broker.smallConfig) Broker.brokerInit twoLinks
    (fun base =>
      let σ := openSite base .write (by decide)
      remains 1 (cstr "/a") σ linkOfX .empty (RemoteList.rowsOf nodeRows) (cstr "$base") = some none ∧
      remains 1 (cstr "/a") σ linkOfX .empty (RemoteList.rowsOf nodeRows) (cstr "$is") = some none ∧
      (answered σ).any (fun s => decide ((s.views.get 0).isSome ∧ (s.updatesCache.get (cstr "x")).isSome)) = true)
    (by decide)
  simp only [Bool.decide_and, Bool.and_eq_true, decide_eq_true_eq] at hcheck
  obtain ⟨hbase, his, hstep⟩ := hcheck
  obtain ⟨s, hs, hs'⟩ := (Option.any_eq_true _ _).mp hstep
  simp only [Bool.and_eq_true, decide_eq_true_eq] at hs'
  obtain ⟨hview, hx⟩ := hs'
  obtain ⟨view, hview⟩ := Option.isSome_iff_exists.mp hview
  have hjoin : Reach (RemoteList.step 1 (cstr "/a")) (fun s e => e.Kept 1 (cstr "/a") s) (· = RemoteList.init)
      (RemoteList.init.join 0) := by
    apply Reach.single (e := .join 0) _ rfl
    rintro (hm | hm) <;> cases hm
  have hkept : (ListEvent.response (openSite base .write (by decide)) linkOfX nodeRows).Kept 1 (cstr "/a")
      (RemoteList.init.join 0) := by
    refine Or.inr ⟨fun _ k n l hk _ hl => ?_, fun hm => ?_⟩
    · rcases clears_iff.mp hk with rfl | rfl
      · cases hbase.symm.trans hl
      · cases his.symm.trans hl
    · exact absurd (.inr (Option.isSome_iff_exists.mpr ⟨_, his⟩)) hm
  exact ⟨s, view, hview, hx, list_views_converge 1 (cstr "/a") s (.next hjoin hkept hs) 0 view hview (cstr "x")⟩

/-- The requester still has the profile of the answer, and the cache has not. -/
def keepsProfile (s : RemoteList) : Bool :=
  (s.updatesCache.get (cstr "$is")).isNone &&
    (s.views.get 0).any (fun view => (view (cstr "$is")).isSome)

/-- The link `x` answers and disconnects: the requester still has the profile, and the cache has not. -/
theorem list_view_keeps_profile : ∃ (σ : Site) (s : RemoteList),
    Reach (Broker.step Broker.smallConfig) (fun _ _ => True) (fun σ => Broker.brokerInit = some σ) σ.base ∧
      Reach (RemoteList.step 1 (cstr "/a")) (fun _ _ => True) (· = RemoteList.init) s ∧
      s.updatesCache.get (cstr "$is") = none ∧ ∃ view, s.views.get 0 = some view ∧ view (cstr "$is") ≠ none := by
  obtain ⟨base, hbase, hcheck⟩ := Reach.of_eval (Broker.step Broker.smallConfig) Broker.brokerInit twoLinks
    (fun base => ((answered (openSite base .write (by decide))).map (fun (s : RemoteList) =>
      s.disconnect 1 (cstr "/a") (openSite base .write (by decide)) (cstr "now"))).any keepsProfile) (by decide)
  obtain ⟨s, hs, hkeeps⟩ := (Option.any_eq_true _ _).mp hcheck
  obtain ⟨t, ht, rfl⟩ := Option.map_eq_some_iff.mp hs
  obtain ⟨his, hview⟩ := Bool.and_eq_true_iff.mp hkeeps
  obtain ⟨view, hget, hview⟩ := (Option.any_eq_true _ _).mp hview
  refine ⟨openSite base .write (by decide), _, hbase, ?_, Option.isNone_iff_eq_none.mp his, view, hget,
    Option.isSome_iff_ne_none.mp hview⟩
  have hjoin : Reach (RemoteList.step 1 (cstr "/a")) (fun _ _ => True) (· = RemoteList.init)
      (RemoteList.init.join 0) := .single (e := .join 0) trivial rfl
  exact .next (.next hjoin trivial ht) (e := .disconnect _ _) trivial rfl

end DSLink
