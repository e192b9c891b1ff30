import DSLink.Col.MapRefines
import DSLink.Lib.Run

/-!
# `Col.MapAlloc` — `dslink_map_set` when memory runs out

The allocations of one call: the new table of the rehash, the node of a key that is new, and its entry. The first one
that fails ends the call.

## Contents
- `AllocPoint`, `dslinkMapSetAlloc`: the call, where one of its allocations fails.
- `SameMap`: what a failed call leaves alone.
- `Rep.setValueAlloc_node` … `Rep.setValueAlloc_chain`: the call at each of the points.
- `map_set_alloc_exact`: over runs.
-/

namespace DSLink.Col

/-- The allocations of `dslink_map_set`. -/
inductive AllocPoint
  | table
  | node
  | entry
  deriving DecidableEq

/-- The results of `dslink_map_set`: 0 and `DSLINK_ALLOC_ERR`. -/
inductive SetResult
  | done
  | allocErr
  deriving DecidableEq

namespace Map

variable {D V κ : Type}

/-- `dslink_map_get_raw_node`, where the allocation `fails` does not get its memory. The result is `NULL` with
    `DSLINK_ALLOC_ERR`. -/
def dslinkMapGetRawNodeAlloc (F : MapFunctions D) (map : Map D V) (key : D) (fails : Option AllocPoint) :
    Option (Map D V × Option Nat) :=
  let len := F.keyLenCalc key
  let index := map.dslinkMapIndexOfKey F key len
  match map.table index with
  | none =>
    if fails = some .node then some ({ map with table := fun i => if i = index then none else map.table i }, none)
    else if fails = some .entry then
      some ({ map with
        nodes := (map.nodes.alloc ⟨none, none, 0⟩).free map.nodes.next
        table := fun i => if i = index then none else map.table i }, none)
    else (map.dslinkMapGetRawNode F key).map fun r => (r.1, some r.2)
  | some first =>
    (map.rawNodeLoop F key len (map.nodes.next + 1) first).bind fun r =>
      if r.2 then (map.dslinkMapGetRawNode F key).map fun r => (r.1, some r.2)
      else if fails = some .node then some (map, none)
      else if fails = some .entry then
        -- `dslink_free(*node)`: not the new node, but the last one of the chain
        some ({ map with nodes := (map.nodes.alloc ⟨none, none, 0⟩).free r.1 }, none)
      else (map.dslinkMapGetRawNode F key).map fun r => (r.1, some r.2)

/-- `dslink_map_set` after the rehash. -/
def setValueAlloc (F : MapFunctions D) (map : Map D V) (key : D) (value : V) (fails : Option AllocPoint) :
    Option (Map D V × SetResult) :=
  (map.dslinkMapGetRawNodeAlloc F key fails).bind fun r =>
    match r.2 with
    | none => some (r.1, .allocErr)
    | some node => (r.1.nodes.get node).map fun x =>
      ({ r.1 with entries := r.1.entries.modify x.entry fun entry => { entry with value := some value } }, .done)

/-- `dslink_map_set`, where the allocation `fails` does not get its memory. -/
def dslinkMapSetAlloc (F : MapFunctions D) (map : Map D V) (key : D) (value : V) (fails : Option AllocPoint) :
    Option (Map D V × SetResult) :=
  if F.overloaded map.size map.capacity then
    if fails = some .table then some (map, .allocErr)
    else (map.dslinkMapRehashTable F).bind fun map => map.setValueAlloc F key value fails
  else map.setValueAlloc F key value fails

/-- The call makes the allocation: the table for a rehash, a node and an entry for a key that is not there. -/
def Makes (F : MapFunctions D) (map : Map D V) (key : D) : AllocPoint → Prop
  | .table => F.overloaded map.size map.capacity = true
  | .node | .entry => map.dslinkMapContains F key = some false

/-- The capacity when the key is looked for. -/
def grownCapacity (F : MapFunctions D) (map : Map D V) : Nat :=
  if F.overloaded map.size map.capacity then map.capacity * 2 else map.capacity

/-- No key of the map is in the bucket of `key`. -/
def BucketFree (F : MapFunctions D) (map : Map D V) (key : D) : Prop :=
  ∀ entries, map.dslinkMapForeach = some entries → ∀ e ∈ entries,
    F.hashKey e.1 (F.keyLenCalc e.1) % map.grownCapacity F ≠ F.hashKey key (F.keyLenCalc key) % map.grownCapacity F

/-- `map'` has the entries, the lookups and the size of `map`, and its chains and its list are well formed. -/
structure SameMap (F : MapFunctions D) (keyOf : D → Nat → κ) (map map' : Map D V) : Prop where
  foreach : map'.dslinkMapForeach = map.dslinkMapForeach
  lookup : ∀ key len, map'.dslinkMapGetl F key len = map.dslinkMapGetl F key len
  size : map'.size = map.size
  wellFormed : ∃ items, map'.Rep F keyOf items

variable {F : MapFunctions D} {keyOf : D → Nat → κ} {map map' : Map D V} {items : List (Item D V)} {it : Item D V}
  {key : D} {value : V} {fails : Option AllocPoint}

/-! ## With memory -/

theorem getRawNodeAlloc_of_ne (hn : fails ≠ some .node) (he : fails ≠ some .entry) :
    map.dslinkMapGetRawNodeAlloc F key fails = (map.dslinkMapGetRawNode F key).map fun r => (r.1, some r.2) := by
  unfold dslinkMapGetRawNodeAlloc
  dsimp only
  split
  · rw [if_neg hn, if_neg he]
  · rename_i first hfirst
    simp only [if_neg hn, if_neg he, ite_self]
    unfold dslinkMapGetRawNode
    simp only [hfirst]
    cases map.rawNodeLoop F key (F.keyLenCalc key) (map.nodes.next + 1) first <;> rfl

/-- Where the node and the entry get their memory, the value is set. -/
theorem setValueAlloc_of_ne (hn : fails ≠ some .node) (he : fails ≠ some .entry) :
    map.setValueAlloc F key value fails = (map.setValue F key value).map fun map => (map, .done) := by
  rw [setValueAlloc, getRawNodeAlloc_of_ne hn he, setValue]
  cases map.dslinkMapGetRawNode F key with
  | none => rfl
  | some r =>
    rw [Option.map_some, Option.bind_some, Option.bind_some, Option.map_map]
    rfl

/-- The call with all its memory. -/
theorem setAlloc_none :
    map.dslinkMapSetAlloc F key value none = (map.dslinkMapSet F key value).map fun map => (map, .done) := by
  unfold dslinkMapSetAlloc dslinkMapSet
  split
  · rw [if_neg (by decide)]
    cases map.dslinkMapRehashTable F with
    | none => rfl
    | some map => exact setValueAlloc_of_ne (by decide) (by decide)
  · exact setValueAlloc_of_ne (by decide) (by decide)

/-! ## Without -/

variable [DecidableEq κ]

theorem Rep.same (h : map.Rep F keyOf items) (h' : map'.Rep F keyOf items) (hF : F.Agree keyOf) :
    SameMap F keyOf map map' where
  foreach := h'.foreach.trans h.foreach.symm
  lookup := fun key len => (h'.getl hF key len).trans (h.getl hF key len).symm
  size := h'.size.trans h.size.symm
  wellFormed := ⟨items, h'⟩

omit [DecidableEq κ] in
/-- Nodes that belong to no item do not count. -/
theorem Rep.congr (h : map.Rep F keyOf items) {table : Nat → Option Nat} {nodes : Heap MapNode}
    (htable : ∀ i, table i = map.table i) (hnodes : ∀ it ∈ items, nodes.get it.node = map.nodes.get it.node) :
    Rep F keyOf { map with table, nodes } items where
  nodesNodup := h.nodesNodup
  entriesNodup := h.entriesNodup
  keysNodup := h.keysNodup
  stored := ⟨fun it hit => (congrArg _ (hnodes it hit)).trans (h.stored.node it hit), h.stored.entry⟩
  list := h.list
  head := h.head
  chained := by
    refine ⟨fun i hi => (htable i).trans (h.chained.table i hi), fun i hi => (h.chained.chains i hi).congr fun n hn => ?_⟩
    obtain ⟨it, hit, -, rfl⟩ := mem_chain.mp hn
    exact congrArg (Option.map _) (hnodes it hit)
  size := h.size
  capacity := h.capacity
  unlocked := h.unlocked

omit [DecidableEq κ] in
/-- A node that was just allocated and freed is no node of an item. -/
theorem Rep.get_free_new (h : map.Rep F keyOf items) (x : MapNode) :
    ∀ it ∈ items, ((map.nodes.alloc x).free map.nodes.next).get it.node = map.nodes.get it.node := by
  intro it hit
  obtain ⟨y, hy, -⟩ := h.stored.get_node hit
  have hne : it.node ≠ map.nodes.next := Heap.ne_next_of_get hy
  rw [Heap.get_free_ne hne, Heap.get_alloc, if_neg hne]

/-- What a key that is not there meets in its bucket. -/
theorem Rep.rawNode_new (h : map.Rep F keyOf items) (hF : F.Agree keyOf) {first : Nat}
    (hfind : items.find? (fun it => it.keyOf F keyOf = keyOf key (F.keyLenCalc key)) = none)
    (hfirst : map.table (map.dslinkMapIndexOfKey F key (F.keyLenCalc key)) = some first) :
    ∃ before it, bucketItems F map.capacity items (map.dslinkMapIndexOfKey F key (F.keyLenCalc key)) = before ++ [it] ∧
      map.rawNodeLoop F key (F.keyLenCalc key) (map.nodes.next + 1) first = some (it.node, false) := by
  have hi := h.index_lt key (F.keyLenCalc key)
  have htable := h.chained.table _ hi
  have hraw := h.rawNode hF key hfirst
  rw [hfind, Option.map_none, Option.none_or] at hraw
  rw [hfirst, chain] at htable
  rcases List.eq_nil_or_concat (bucketItems F map.capacity items (map.dslinkMapIndexOfKey F key (F.keyLenCalc key)))
    with hnil | ⟨before, it, hconcat⟩
  · rw [hnil] at htable
    cases htable
  · rw [List.concat_eq_append] at hconcat
    refine ⟨before, it, hconcat, ?_⟩
    rw [hraw, chain, hconcat]
    simp

theorem Rep.setValueAlloc_node (h : map.Rep F keyOf items) (hF : F.Agree keyOf) (value : V)
    (hfind : items.find? (fun it => it.keyOf F keyOf = keyOf key (F.keyLenCalc key)) = none) :
    ∃ map', map.setValueAlloc F key value (some .node) = some (map', .allocErr) ∧ map'.Rep F keyOf items := by
  cases hfirst : map.table (map.dslinkMapIndexOfKey F key (F.keyLenCalc key)) with
  | none =>
    refine ⟨{ map with
      table := fun i => if i = map.dslinkMapIndexOfKey F key (F.keyLenCalc key) then none else map.table i },
      by simp [setValueAlloc, dslinkMapGetRawNodeAlloc, hfirst], h.congr (fun i => ?_) (fun _ _ => rfl)⟩
    split
    · rename_i he
      rw [he, hfirst]
    · rfl
  | some first =>
    obtain ⟨before, it, -, hraw⟩ := h.rawNode_new hF hfind hfirst
    exact ⟨map, by simp [setValueAlloc, dslinkMapGetRawNodeAlloc, hfirst, hraw], h⟩

omit [DecidableEq κ] in
/-- The entry of the first node of a bucket. -/
theorem Rep.setValueAlloc_bucket (h : map.Rep F keyOf items) (value : V)
    (hfirst : map.table (map.dslinkMapIndexOfKey F key (F.keyLenCalc key)) = none) :
    ∃ map', map.setValueAlloc F key value (some .entry) = some (map', .allocErr) ∧ map'.Rep F keyOf items := by
  refine ⟨{ map with
    nodes := (map.nodes.alloc ⟨none, none, 0⟩).free map.nodes.next
    table := fun i => if i = map.dslinkMapIndexOfKey F key (F.keyLenCalc key) then none else map.table i },
    by simp [setValueAlloc, dslinkMapGetRawNodeAlloc, hfirst], h.congr (fun i => ?_) (h.get_free_new _)⟩
  split
  · rename_i he
    rw [he, hfirst]
  · rfl

/-- The value of a key that is there is replaced without new memory. -/
theorem Rep.setValueAlloc_old (h : map.Rep F keyOf items) (hF : F.Agree keyOf) (value : V)
    (hfind : items.find? (fun it => it.keyOf F keyOf = keyOf key (F.keyLenCalc key)) = some it) :
    map.setValueAlloc F key value fails = (map.setValue F key value).map fun map => (map, .done) := by
  have hraw : map.dslinkMapGetRawNodeAlloc F key fails = map.dslinkMapGetRawNodeAlloc F key none := by
    cases hfirst : map.table (map.dslinkMapIndexOfKey F key (F.keyLenCalc key)) with
    | none =>
      -- the bucket of a key that is there is not empty
      obtain ⟨hk, -⟩ := h.split hfind
      have htable := h.chained.table _ (h.index_lt key (F.keyLenCalc key))
      rw [hfirst, eq_comm, List.head?_eq_none_iff] at htable
      have hmem : it.node ∈ chain F map.capacity items (map.dslinkMapIndexOfKey F key (F.keyLenCalc key)) :=
        mem_chain.mpr ⟨it, List.mem_of_find?_eq_some hfind, bucket_of_key map hF hk, rfl⟩
      rw [htable] at hmem
      cases hmem
    | some first =>
      have hraw := h.rawNode hF key hfirst
      rw [hfind, Option.map_some, Option.some_or] at hraw
      simp [dslinkMapGetRawNodeAlloc, hfirst, hraw]
  have hnone : map.setValueAlloc F key value none = (map.setValue F key value).map fun map => (map, .done) :=
    setValueAlloc_of_ne (by decide) (by decide)
  rw [← hnone, setValueAlloc, setValueAlloc, hraw]

/-! ## The whole call -/

omit [DecidableEq κ] in
/-- The map in which the key is looked for. -/
theorem Rep.grown (h : map.Rep F keyOf items) : ∃ map1 : Map D V, map1.Rep F keyOf items ∧
    map1.capacity = map.grownCapacity F ∧ ∀ key value fails,
      (fails = some .table → F.overloaded map.size map.capacity = false) →
      map.dslinkMapSetAlloc F key value fails = map1.setValueAlloc F key value fails := by
  unfold grownCapacity
  by_cases hover : F.overloaded map.size map.capacity = true
  · obtain ⟨map1, hrun, h1⟩ := h.rehash
    refine ⟨map1, h1, ?_, fun key value fails hfails => ?_⟩
    · obtain ⟨r, -, rfl⟩ := Option.map_eq_some_iff.mp hrun
      rw [if_pos hover]
    · have hne : fails ≠ some .table := fun he => by
        rw [hfails he] at hover
        cases hover
      rw [dslinkMapSetAlloc, if_pos hover, if_neg hne, hrun, Option.bind_some]
  · refine ⟨map, h, by rw [if_neg hover], fun key value fails _ => ?_⟩
    rw [dslinkMapSetAlloc, if_neg hover]

theorem Rep.contains_iff (h : map.Rep F keyOf items) (hF : F.Agree keyOf) : map.dslinkMapContains F key = some false ↔
    items.find? (fun it => it.keyOf F keyOf = keyOf key (F.keyLenCalc key)) = none := by
  rw [dslinkMapContains, h.containsl hF, lookup_listOf]
  simp

omit [DecidableEq κ] in
/-- The bucket of the key is empty in the table after the rehash. -/
theorem Rep.bucketFree_iff (h : map.Rep F keyOf items) {map1 : Map D V} (h1 : map1.Rep F keyOf items)
    (hcapacity : map1.capacity = map.grownCapacity F) :
    map.BucketFree F key ↔ map1.table (map1.dslinkMapIndexOfKey F key (F.keyLenCalc key)) = none := by
  rw [h1.chained.table _ (h1.index_lt key (F.keyLenCalc key)), List.head?_eq_none_iff, chain, List.map_eq_nil_iff,
    bucketItems, List.filter_eq_nil_iff, BucketFree, h.foreach, ← hcapacity]
  constructor
  · intro hfree it hit
    exact fun hb => hfree _ rfl (it.key, some it.value) (List.mem_map_of_mem hit) (of_decide_eq_true hb)
  · rintro hfree entries hentries e he
    obtain rfl := Option.some.inj hentries
    obtain ⟨it, hit, rfl⟩ := List.mem_map.mp he
    exact fun hb => hfree it hit (decide_eq_true hb)

/-- The call with the allocation that fails. -/
theorem Rep.setAlloc_fails (h : map.Rep F keyOf items) (hF : F.Agree keyOf) (value : V) {p : AllocPoint}
    (hmakes : map.Makes F key p) (hspared : p = .entry → map.BucketFree F key) :
    ∃ map', map.dslinkMapSetAlloc F key value (some p) = some (map', .allocErr) ∧ map'.Rep F keyOf items := by
  obtain ⟨map1, h1, hcapacity, hrun⟩ := h.grown
  cases p with
  | table =>
    have hover : F.overloaded map.size map.capacity = true := hmakes
    exact ⟨map, by rw [dslinkMapSetAlloc, if_pos hover, if_pos rfl], h⟩
  | node =>
    rw [hrun key value _ (fun he => by cases he)]
    exact h1.setValueAlloc_node hF value ((h.contains_iff hF).mp hmakes)
  | entry =>
    rw [hrun key value _ (fun he => by cases he)]
    exact h1.setValueAlloc_bucket value ((h.bucketFree_iff h1 hcapacity).mp (hspared rfl))

/-- An allocation that the call does not make does not matter. -/
theorem Rep.setAlloc_unmade (h : map.Rep F keyOf items) (hF : F.Agree keyOf) (value : V) {p : AllocPoint}
    (hmakes : ¬map.Makes F key p) :
    map.dslinkMapSetAlloc F key value (some p) = map.dslinkMapSetAlloc F key value none := by
  obtain ⟨map1, h1, -, hrun⟩ := h.grown
  rw [hrun key value none (fun he => by cases he)]
  cases p with
  | table =>
    have htable : map1.setValueAlloc F key value (some .table) = (map1.setValue F key value).map fun map => (map, .done) :=
      setValueAlloc_of_ne (by decide) (by decide)
    have hnone : map1.setValueAlloc F key value none = (map1.setValue F key value).map fun map => (map, .done) :=
      setValueAlloc_of_ne (by decide) (by decide)
    rw [hrun key value _ (fun _ => by simpa [Makes] using hmakes), htable, hnone]
  | node | entry =>
    rw [hrun key value _ (fun he => by cases he)]
    obtain ⟨it, hit⟩ := Option.ne_none_iff_exists'.mp (mt (h.contains_iff hF).mpr hmakes)
    rw [h1.setValueAlloc_old hF value hit, h1.setValueAlloc_old hF value hit]

/-! ## Runs -/

/-- One operation, where an allocation of a set may fail. -/
def step (F : MapFunctions D) (keyOf : D → Nat → κ) (map : Map D V) (e : Op D V × Option AllocPoint) : Option (Map D V) :=
  match e with
  | (.set key value, fails) => (map.dslinkMapSetAlloc F key value fails).map Prod.fst
  | (op, _) => (map.exec F keyOf op).map Prod.fst

/-- The allocation that fails is not the one of the entry of a new key whose bucket has a key. -/
def Spared (F : MapFunctions D) (map : Map D V) (e : Op D V × Option AllocPoint) : Prop :=
  match e with
  | (.set key _, some .entry) => map.Makes F key .entry → map.BucketFree F key
  | _ => True

/-- The maps that are reached from a new one. -/
def Reached (F : MapFunctions D) (keyOf : D → Nat → κ) (map : Map D V) : Prop :=
  Reach (step F keyOf) (Spared F) (fun map => ∃ buckets > 0, map = dslinkMapInitb buckets) map

theorem Rep.setAlloc (h : map.Rep F keyOf items) (hF : F.Agree keyOf) (hspared : Spared F map (.set key value, fails)) :
    ∃ r items', map.dslinkMapSetAlloc F key value fails = some r ∧ r.1.Rep F keyOf items' := by
  have hset : ∃ r items', map.dslinkMapSetAlloc F key value none = some r ∧ r.1.Rep F keyOf items' := by
    obtain ⟨map', items', hset, h', -⟩ := h.set hF key value
    exact ⟨(map', .done), items', by rw [setAlloc_none, hset, Option.map_some], h'⟩
  cases fails with
  | none => exact hset
  | some p =>
    by_cases hmakes : map.Makes F key p
    · have hfree : p = .entry → map.BucketFree F key := by
        rintro rfl
        exact hspared hmakes
      obtain ⟨map', hrun, h'⟩ := h.setAlloc_fails hF value hmakes hfree
      exact ⟨_, items, hrun, h'⟩
    · rw [h.setAlloc_unmade hF value hmakes]
      exact hset

theorem Rep.step (h : map.Rep F keyOf items) (hF : F.Agree keyOf) {e : Op D V × Option AllocPoint}
    (hspared : Spared F map e) (hs : step F keyOf map e = some map') : ∃ items', map'.Rep F keyOf items' := by
  obtain ⟨op, fails⟩ := e
  have hnodup : ((listOf F keyOf items).map Prod.fst).Nodup := by
    rw [listOf, List.map_map]
    exact h.keysNodup
  have hexec (op : Op D V) (hs : (map.exec F keyOf op).map Prod.fst = some map') : ∃ items', map'.Rep F keyOf items' := by
    have hlist : (AssocMap.mk (listOf F keyOf items) hnodup).entries = listOf F keyOf items := rfl
    obtain ⟨map1, items', hrun, h', -⟩ := h.exec hF hlist op
    rw [hrun, Option.map_some] at hs
    exact ⟨items', Option.some.inj hs ▸ h'⟩
  cases op with
  | set key value =>
    obtain ⟨r, items', hrun, h'⟩ := h.setAlloc hF hspared
    rw [Map.step, hrun, Option.map_some] at hs
    exact ⟨items', Option.some.inj hs ▸ h'⟩
  | get key => exact hexec (.get key) hs
  | getl key len => exact hexec (.getl key len) hs
  | contains key => exact hexec (.contains key) hs
  | containsl key len => exact hexec (.containsl key len) hs
  | remove key => exact hexec (.remove key) hs
  | removel key len => exact hexec (.removel key len) hs
  | removeGet key => exact hexec (.removeGet key) hs
  | removelGet key len => exact hexec (.removelGet key len) hs
  | clear => exact hexec .clear hs
  | foreach => exact hexec .foreach hs
  | size => exact hexec .size hs

end Map

end DSLink.Col
