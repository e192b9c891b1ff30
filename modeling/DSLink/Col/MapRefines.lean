import Mathlib.Data.List.Nodup
import Mathlib.Data.List.Perm.Subperm
import DSLink.Col.Map

/-!
# `Col.MapRefines` — the hash map is an association list

`Map.Rep map items` says that a map holds the items, in the order of its list: each one is a node with its entry,
the entries are linked in this order, and the chain of a bucket has the nodes of the items that belong into it, in
this order too. Every operation keeps it, and what the operation gives is what it gives on the association list of the
items.

## Contents

* `Map.Rep`, and the loops over a chain and over the list.
* `Map.Rep.set`, `Map.Rep.remove`, `Map.Rep.clear`, `Map.Rep.rehash` — the operations.
* `map_refines` — sequences of operations.
-/

namespace DSLink.Col

/-- A key with its value, and where the map has its node and its entry. -/
structure Item (D V : Type) where
  node : Nat
  entry : Nat
  key : D
  value : V

variable {D V κ : Type}

/-- The two links of a node. -/
def viewNodes (nodes : Heap MapNode) (n : Nat) : Option Links := (nodes.get n).map fun x => ⟨x.prev, x.next⟩

/-- The two links of an entry. -/
def viewEntries (entries : Heap (MapEntry D V)) (e : Nat) : Option Links :=
  (entries.get e).map fun x => ⟨x.prev, x.next⟩

/-- The key that an item stands for. -/
def Item.keyOf (F : MapFunctions D) (keyOf : D → Nat → κ) (it : Item D V) : κ := keyOf it.key (F.keyLenCalc it.key)

/-- The bucket of an item. -/
def Item.bucket (F : MapFunctions D) (capacity : Nat) (it : Item D V) : Nat :=
  F.hashKey it.key (F.keyLenCalc it.key) % capacity

/-- The items of a bucket. -/
def bucketItems (F : MapFunctions D) (capacity : Nat) (items : List (Item D V)) (i : Nat) : List (Item D V) :=
  items.filter fun it => it.bucket F capacity = i

/-- The chain of a bucket. -/
def chain (F : MapFunctions D) (capacity : Nat) (items : List (Item D V)) (i : Nat) : List Nat :=
  (bucketItems F capacity items i).map Item.node

/-- The association list of the items. -/
def listOf (F : MapFunctions D) (keyOf : D → Nat → κ) (items : List (Item D V)) : List (κ × V) :=
  items.map fun it => (it.keyOf F keyOf, it.value)

/-- The nodes and the chains of the items. -/
structure Chained (F : MapFunctions D) (capacity : Nat) (items : List (Item D V)) (table : Nat → Option Nat)
    (nodes : Heap MapNode) : Prop where
  table : ∀ i, i < capacity → table i = (chain F capacity items i).head?
  chains : ∀ i, i < capacity → Linked (viewNodes nodes) (chain F capacity items i)

/-- Every item has its node and its entry. -/
structure Stored (items : List (Item D V)) (nodes : Heap MapNode) (entries : Heap (MapEntry D V)) : Prop where
  node : ∀ it ∈ items, (nodes.get it.node).map MapNode.entry = some it.entry
  entry : ∀ it ∈ items, (entries.get it.entry).map (fun x => (x.key, x.value, x.node)) = some (it.key, some it.value, it.node)

/-- The map holds the items, in the order of its list. -/
structure Map.Rep (F : MapFunctions D) (keyOf : D → Nat → κ) (map : Map D V) (items : List (Item D V)) : Prop where
  nodesNodup : (items.map Item.node).Nodup
  entriesNodup : (items.map Item.entry).Nodup
  keysNodup : (items.map (Item.keyOf F keyOf)).Nodup
  stored : Stored items map.nodes map.entries
  list : Linked (viewEntries map.entries) (items.map Item.entry)
  head : map.head = ⟨(items.map Item.entry).getLast?, (items.map Item.entry).head?⟩
  chained : Chained F map.capacity items map.table map.nodes
  size : map.size = items.length
  capacity : 0 < map.capacity
  unlocked : map.locked = false

/-! ## Nodes and entries of items -/

section Stored

variable {F : MapFunctions D} {keyOf : D → Nat → κ} {items rest : List (Item D V)} {nodes : Heap MapNode}
  {entries : Heap (MapEntry D V)} {it : Item D V} {capacity i : Nat}

theorem Stored.get_node (h : Stored items nodes entries) (hm : it ∈ items) :
    ∃ x, nodes.get it.node = some x ∧ x.entry = it.entry := by
  obtain ⟨x, hx, he⟩ := Option.map_eq_some_iff.mp (h.node it hm)
  exact ⟨x, hx, he⟩

theorem Stored.get_entry (h : Stored items nodes entries) (hm : it ∈ items) :
    ∃ x, entries.get it.entry = some x ∧ x.key = it.key ∧ x.value = some it.value ∧ x.node = it.node := by
  obtain ⟨x, hx, he⟩ := Option.map_eq_some_iff.mp (h.entry it hm)
  simp only [Prod.mk.injEq] at he
  exact ⟨x, hx, he⟩

/-- A linked node of an item knows the next one. -/
theorem Stored.node_at (h : Stored items nodes entries) {l1 l2 : List Nat}
    (hl : Linked (viewNodes nodes) (l1 ++ it.node :: l2)) (hm : it ∈ items) :
    nodes.get it.node = some ⟨l1.getLast?, l2.head?, it.entry⟩ := by
  obtain ⟨x, hx, he⟩ := h.get_node hm
  have hview : viewNodes nodes it.node = some ⟨l1.getLast?, l2.head?⟩ := hl l1 it.node l2 rfl
  rw [viewNodes, hx, Option.map_some, Option.some.injEq, Links.mk.injEq] at hview
  rw [hx, ← hview.1, ← hview.2, ← he]

/-- A linked entry of an item knows the next one. -/
theorem Stored.entry_at (h : Stored items nodes entries) {l1 l2 : List Nat}
    (hl : Linked (viewEntries entries) (l1 ++ it.entry :: l2)) (hm : it ∈ items) :
    entries.get it.entry = some ⟨l1.getLast?, l2.head?, it.key, some it.value, it.node⟩ := by
  obtain ⟨x, hx, hkey, hvalue, hnode⟩ := h.get_entry hm
  have hview : viewEntries entries it.entry = some ⟨l1.getLast?, l2.head?⟩ := hl l1 it.entry l2 rfl
  rw [viewEntries, hx, Option.map_some, Option.some.injEq, Links.mk.injEq] at hview
  rw [hx, ← hview.1, ← hview.2, ← hkey, ← hvalue, ← hnode]

theorem mem_bucketItems : it ∈ bucketItems F capacity items i ↔ it ∈ items ∧ it.bucket F capacity = i := by
  simp [bucketItems]

theorem chain_nodup (h : (items.map Item.node).Nodup) : (chain F capacity items i).Nodup :=
  h.sublist (List.filter_sublist.map Item.node)

theorem chain_append (l1 l2 : List (Item D V)) :
    chain F capacity (l1 ++ l2) i = chain F capacity l1 i ++ chain F capacity l2 i := by
  simp [chain, bucketItems]

theorem chain_cons (l : List (Item D V)) :
    chain F capacity (it :: l) i = if it.bucket F capacity = i then it.node :: chain F capacity l i else chain F capacity l i := by
  unfold chain bucketItems
  rw [List.filter_cons]
  split <;> simp_all

theorem mem_chain {n : Nat} : n ∈ chain F capacity items i ↔ ∃ it ∈ items, it.bucket F capacity = i ∧ it.node = n := by
  simp [chain, bucketItems, and_assoc]

/-- A node belongs to one item. -/
theorem eq_of_node (h : (items.map Item.node).Nodup) {it' : Item D V} (hm : it ∈ items) (hm' : it' ∈ items)
    (he : it.node = it'.node) : it = it' := List.inj_on_of_nodup_map h hm hm' he

/-! ## The loops over a chain -/

/-- The loop over what is left of a chain finds the first item with an equal key. -/
theorem Stored.findLoop (done : List (Item D V)) {map : Map D V} (h : Stored items map.nodes map.entries) {key : D} {len fuel : Nat}
    (hitems : ∀ it ∈ done ++ rest, it ∈ items) (hl : Linked (viewNodes map.nodes) ((done ++ rest).map Item.node))
    (hfuel : rest.length ≤ fuel) :
    map.findLoop F key len fuel (rest.map Item.node).head? =
      some ((rest.find? fun it => F.cmp it.key key len).map Item.node) := by
  induction rest generalizing done fuel with
  | nil => cases fuel <;> rfl
  | cons it rest ih =>
    cases fuel with
    | zero => exact absurd hfuel (by simp)
    | succ fuel =>
      have hm : it ∈ items := hitems it (by simp)
      have hl' : Linked (viewNodes map.nodes) (done.map Item.node ++ it.node :: rest.map Item.node) := by simpa using hl
      have hnode := h.node_at hl' hm
      obtain ⟨x, hx, hkey, -, -⟩ := h.get_entry hm
      show (map.nodes.get it.node).bind _ = _
      rw [hnode, Option.bind_some, hx, Option.bind_some, hkey, List.find?_cons]
      cases hcmp : F.cmp it.key key len with
      | true => rfl
      | false =>
        refine ih (done ++ [it]) ?_ ?_ ?_
        · simpa using hitems
        · simpa using hl
        · simpa using hfuel

/-- The loop that looks for a node to use stops at the first item with an equal key or at the end. -/
theorem Stored.rawNodeLoop (done : List (Item D V)) {map : Map D V} (h : Stored items map.nodes map.entries) {key : D} {len fuel : Nat}
    (hitems : ∀ it ∈ done ++ rest, it ∈ items) (hl : Linked (viewNodes map.nodes) ((done ++ rest).map Item.node))
    (hfuel : rest.length ≤ fuel) {first : Nat} (hfirst : (rest.map Item.node).head? = some first) :
    map.rawNodeLoop F key len fuel first =
      ((((rest.find? fun it => F.cmp it.key key len).map fun it => (it.node, true)).or
        ((rest.map Item.node).getLast?.map fun n => (n, false)))) := by
  induction rest generalizing done fuel first with
  | nil => cases hfirst
  | cons it rest ih =>
    obtain rfl : it.node = first := by simpa using hfirst
    cases fuel with
    | zero => exact absurd hfuel (by simp)
    | succ fuel =>
      have hm : it ∈ items := hitems it (by simp)
      have hl' : Linked (viewNodes map.nodes) (done.map Item.node ++ it.node :: rest.map Item.node) := by simpa using hl
      have hnode := h.node_at hl' hm
      obtain ⟨x, hx, hkey, -, -⟩ := h.get_entry hm
      show (map.nodes.get it.node).bind _ = _
      rw [hnode, Option.bind_some, hx, Option.bind_some, hkey, List.find?_cons]
      cases hcmp : F.cmp it.key key len with
      | true => rfl
      | false =>
        cases rest with
        | nil => rfl
        | cons it' rest =>
          refine (ih (done ++ [it]) ?_ ?_ ?_ rfl).trans ?_
          · simpa using hitems
          · simpa using hl
          · simpa using hfuel
          · simp

/-- The inner loop of the rehash goes to the end of a chain. -/
theorem lastNode_eq (l1 : List Nat) {l2 : List Nat} {n fuel : Nat} (hl : Linked (viewNodes nodes) (l1 ++ n :: l2))
    (hfuel : l2.length < fuel) : Map.lastNode nodes fuel n = (n :: l2).getLast? := by
  induction l2 generalizing l1 n fuel with
  | nil =>
    cases fuel with
    | zero => cases hfuel
    | succ fuel =>
      have hview : viewNodes nodes n = some ⟨l1.getLast?, none⟩ := hl l1 n [] rfl
      obtain ⟨x, hx, he⟩ := Option.map_eq_some_iff.mp hview
      rw [Links.mk.injEq] at he
      rw [Map.lastNode, hx, Option.bind_some, he.2]
      rfl
  | cons m l2 ih =>
    cases fuel with
    | zero => cases hfuel
    | succ fuel =>
      have hview : viewNodes nodes n = some ⟨l1.getLast?, some m⟩ := hl l1 n (m :: l2) rfl
      obtain ⟨x, hx, he⟩ := Option.map_eq_some_iff.mp hview
      rw [Links.mk.injEq] at he
      rw [Map.lastNode, hx, Option.bind_some, he.2]
      refine (ih (l1 ++ [n]) (by simpa using hl) (by simpa using hfuel)).trans ?_
      simp

/-- The entries that a traversal visits. -/
theorem Stored.foreachLoop (done : List (Item D V)) (h : Stored items nodes entries) {fuel : Nat} (hitems : ∀ it ∈ done ++ rest, it ∈ items)
    (hl : Linked (viewEntries entries) ((done ++ rest).map Item.entry)) (hfuel : rest.length ≤ fuel) :
    Map.foreachLoop entries fuel (rest.map Item.entry).head? = some (rest.map fun it => (it.key, some it.value)) := by
  induction rest generalizing done fuel with
  | nil => cases fuel <;> rfl
  | cons it rest ih =>
    cases fuel with
    | zero => exact absurd hfuel (by simp)
    | succ fuel =>
      have hl' : Linked (viewEntries entries) (done.map Item.entry ++ it.entry :: rest.map Item.entry) := by
        simpa using hl
      have hentry := h.entry_at hl' (hitems it (by simp))
      show (entries.get it.entry).bind _ = _
      rw [hentry, Option.bind_some]
      have hrest := ih (done ++ [it]) (by simpa using hitems) (by simpa using hl)
        (show rest.length ≤ fuel by simpa using hfuel)
      rw [hrest]
      rfl

end Stored

/-! ## Looking a key up -/

namespace Map.Rep

variable [DecidableEq κ] {F : MapFunctions D} {keyOf : D → Nat → κ} {map : Map D V} {items : List (Item D V)}
  {it : Item D V}

omit [DecidableEq κ] in
theorem items_length_le (h : map.Rep F keyOf items) : items.length ≤ map.nodes.next := by
  have hlen := Heap.length_le_next h.nodesNodup (h := map.nodes) fun n hn => by
    obtain ⟨it, hit, rfl⟩ := List.mem_map.mp hn
    obtain ⟨x, hx, -⟩ := h.stored.get_node hit
    rw [hx]
    rfl
  simpa using hlen

omit [DecidableEq κ] in
theorem items_length_le_entries (h : map.Rep F keyOf items) : items.length ≤ map.entries.next := by
  have hlen := Heap.length_le_next h.entriesNodup (h := map.entries) fun n hn => by
    obtain ⟨it, hit, rfl⟩ := List.mem_map.mp hn
    obtain ⟨x, hx, -⟩ := h.stored.get_entry hit
    rw [hx]
    rfl
  simpa using hlen

omit [DecidableEq κ] in
theorem index_lt (h : map.Rep F keyOf items) (key : D) (len : Nat) : map.dslinkMapIndexOfKey F key len < map.capacity :=
  Nat.mod_lt _ h.capacity

omit [DecidableEq κ] in
/-- An item with the key is in the bucket of the key. -/
theorem bucket_of_key (map : Map D V) (hF : F.Agree keyOf) {key : D} {len : Nat} (he : it.keyOf F keyOf = keyOf key len) :
    it.bucket F map.capacity = map.dslinkMapIndexOfKey F key len := by
  unfold Item.bucket Map.dslinkMapIndexOfKey
  rw [hF.hash _ _ _ _ he]

/-- Looking a key up in its bucket is looking it up among all items. -/
theorem find_bucket (map : Map D V) (hF : F.Agree keyOf) (key : D) (len : Nat) :
    (bucketItems F map.capacity items (map.dslinkMapIndexOfKey F key len)).find? (fun it => F.cmp it.key key len) =
      items.find? fun it => it.keyOf F keyOf = keyOf key len := by
  unfold bucketItems
  rw [List.find?_filter]
  refine congrArg (List.find? · items) (funext fun it => ?_)
  by_cases he : it.keyOf F keyOf = keyOf key len
  · have hcmp : F.cmp it.key key len = true := (hF.cmp _ _ _).mpr he
    simp [he, hcmp, bucket_of_key map hF he]
  · have hcmp : F.cmp it.key key len = false := by
      rw [Bool.eq_false_iff]
      exact fun hc => he ((hF.cmp _ _ _).mp hc)
    simp [he, hcmp]

theorem findNode (h : map.Rep F keyOf items) (hF : F.Agree keyOf) (key : D) (len : Nat) :
    map.findNode F key len = some ((items.find? fun it => it.keyOf F keyOf = keyOf key len).map Item.node) := by
  unfold Map.findNode
  rw [h.chained.table _ (h.index_lt key len), ← find_bucket map hF]
  refine h.stored.findLoop [] ?_ (h.chained.chains _ (h.index_lt key len)) ?_
  · intro it hit
    exact (mem_bucketItems.mp hit).1
  · exact Nat.le_trans (List.length_filter_le _ _) (Nat.le_succ_of_le h.items_length_le)

omit [DecidableEq κ] in
theorem entryOf (h : map.Rep F keyOf items) (hit : it ∈ items) :
    ∃ x, map.entryOf it.node = some x ∧ x.key = it.key ∧ x.value = some it.value := by
  obtain ⟨x, hx, he⟩ := h.stored.get_node hit
  obtain ⟨y, hy, hkey, hvalue, -⟩ := h.stored.get_entry hit
  refine ⟨y, ?_, hkey, hvalue⟩
  rw [Map.entryOf, hx, Option.bind_some, he, hy]

/-- The value of a key on the list of the items. -/
theorem lookup_listOf (k : κ) : AssocMap.lookupIn k (listOf F keyOf items) =
    (items.find? fun it => it.keyOf F keyOf = k).map Item.value := by
  induction items with
  | nil => rfl
  | cons it items ih =>
    show (if it.keyOf F keyOf = k then some it.value else AssocMap.lookupIn k (listOf F keyOf items)) = _
    rw [ih, List.find?_cons]
    by_cases he : it.keyOf F keyOf = k <;> simp [he]

theorem getl (h : map.Rep F keyOf items) (hF : F.Agree keyOf) (key : D) (len : Nat) :
    map.dslinkMapGetl F key len = some (AssocMap.lookupIn (keyOf key len) (listOf F keyOf items)) := by
  rw [Map.dslinkMapGetl, h.findNode hF, lookup_listOf]
  cases hfind : items.find? fun it => it.keyOf F keyOf = keyOf key len with
  | none => rfl
  | some it =>
    obtain ⟨x, hx, -, hvalue⟩ := h.entryOf (List.mem_of_find?_eq_some hfind)
    show (map.entryOf it.node).map MapEntry.value = _
    rw [hx, Option.map_some, hvalue]
    rfl

theorem containsl (h : map.Rep F keyOf items) (hF : F.Agree keyOf) (key : D) (len : Nat) :
    map.dslinkMapContainsl F key len = some (AssocMap.lookupIn (keyOf key len) (listOf F keyOf items)).isSome := by
  rw [Map.dslinkMapContainsl, h.findNode hF, lookup_listOf]
  simp

omit [DecidableEq κ] in
theorem foreach (h : map.Rep F keyOf items) :
    map.dslinkMapForeach = some (items.map fun it => (it.key, some it.value)) := by
  unfold Map.dslinkMapForeach
  rw [h.head]
  exact h.stored.foreachLoop [] (fun it hit => hit) h.list (Nat.le_succ_of_le h.items_length_le_entries)

/-- The items in front of and behind the one with a key. -/
theorem split (h : map.Rep F keyOf items) {k : κ} (hfind : items.find? (fun it => it.keyOf F keyOf = k) = some it) :
    it.keyOf F keyOf = k ∧ ∃ l1 l2, items = l1 ++ it :: l2 ∧ ∀ it' ∈ l1 ++ l2, it'.keyOf F keyOf ≠ k := by
  obtain ⟨hk, l1, l2, rfl, hl1⟩ := List.find?_eq_some_iff_append.mp hfind
  have hk : it.keyOf F keyOf = k := by simpa using hk
  refine ⟨hk, l1, l2, rfl, fun it' hit' he => ?_⟩
  have hnodup := h.keysNodup
  rw [List.map_append, List.map_cons] at hnodup
  rcases List.mem_append.mp hit' with hit' | hit'
  · simpa [he] using hl1 it' hit'
  · exact (List.nodup_cons.mp (List.nodup_append.mp hnodup).2.1).1 (hk.trans he.symm ▸ List.mem_map_of_mem hit')

end Map.Rep

/-! ## Growing a chain -/

section Chained

variable {F : MapFunctions D} {items : List (Item D V)} {it : Item D V} {capacity : Nat} {table table' : Nat → Option Nat}
  {nodes nodes' : Heap MapNode} {entries : Heap (MapEntry D V)}

/-- A node that is linked in behind the last one of its chain. -/
theorem Chained.snoc (h : Chained F capacity items table nodes) (hnodup : ((items ++ [it]).map Item.node).Nodup)
    (hnew : viewNodes nodes' it.node = some ⟨(chain F capacity items (it.bucket F capacity)).getLast?, none⟩)
    (hold : ∀ m ∈ items.map Item.node, viewNodes nodes' m =
      if (chain F capacity items (it.bucket F capacity)).getLast? = some m then
        (viewNodes nodes m).map fun x => { x with next := some it.node } else viewNodes nodes m)
    (htable : ∀ i, i < capacity → table' i =
      if i = it.bucket F capacity ∧ chain F capacity items i = [] then some it.node else table i) :
    Chained F capacity (items ++ [it]) table' nodes' := by
  have hitems : (items.map Item.node).Nodup := by
    rw [List.map_append] at hnodup
    exact (List.nodup_append.mp hnodup).1
  have hsub : ∀ i, ∀ m ∈ chain F capacity items i, m ∈ items.map Item.node := by
    intro i m hm
    obtain ⟨it', hit', -, rfl⟩ := mem_chain.mp hm
    exact List.mem_map_of_mem hit'
  have hchain : ∀ i, chain F capacity (items ++ [it]) i =
      chain F capacity items i ++ if it.bucket F capacity = i then [it.node] else [] := by
    intro i
    rw [chain_append, chain_cons]
    rfl
  refine ⟨fun i hi => ?_, fun i hi => ?_⟩
  · rw [htable i hi, hchain, h.table i hi]
    by_cases hb : it.bucket F capacity = i
    · rw [if_pos hb]
      cases chain F capacity items i <;> simp [hb]
    · rw [if_neg hb, if_neg (fun hc => hb hc.1.symm), List.append_nil]
  · rw [hchain]
    by_cases hb : it.bucket F capacity = i
    · rw [if_pos hb]
      subst hb
      refine (h.chains _ hi).snoc ?_ hnew fun m hm => hold m (hsub _ m hm)
      have hn : (chain F capacity (items ++ [it]) (it.bucket F capacity)).Nodup := chain_nodup hnodup
      rw [hchain, if_pos rfl] at hn
      exact hn
    · rw [if_neg hb, List.append_nil]
      refine (h.chains i hi).congr fun m hm => ?_
      rw [hold m (hsub i m hm), if_neg]
      -- the last node of another chain is not in this one
      intro hlast
      obtain ⟨it1, h1, hb1, rfl⟩ := mem_chain.mp hm
      obtain ⟨it2, h2, hb2, hn⟩ := mem_chain.mp (List.mem_of_getLast? hlast)
      rw [eq_of_node hitems h2 h1 hn] at hb2
      exact hb (hb2.symm.trans hb1)

/-- Only the links of nodes change. -/
theorem Stored.relink (h : Stored items nodes entries)
    (hn : ∀ n, (nodes'.get n).map MapNode.entry = (nodes.get n).map MapNode.entry) : Stored items nodes' entries :=
  ⟨fun it hit => (hn it.node).trans (h.node it hit), h.entry⟩

theorem viewNodes_modify (f : MapNode → MapNode) (a b : Nat) :
    viewNodes (nodes.modify a f) b = if b = a then (nodes.get a).map (fun x => ⟨(f x).prev, (f x).next⟩) else viewNodes nodes b := by
  unfold viewNodes
  rw [Heap.get_modify]
  split
  · rw [Option.map_map]
    rfl
  · rfl

/-- The loop of the rehash puts the node of each item at the end of its new chain. -/
theorem Stored.rehashLoop {rest : List (Item D V)} (done : List (Item D V)) {fuel : Nat} (h : Stored items nodes entries)
    (hitems : items = done ++ rest) (hnodup : (items.map Item.node).Nodup)
    (hl : Linked (viewEntries entries) (items.map Item.entry)) (hnext : items.length ≤ nodes.next)
    (hc : Chained F capacity done table nodes) (hcapacity : 0 < capacity) (hfuel : rest.length ≤ fuel) :
    ∃ table' nodes', Map.rehashLoop F entries capacity fuel (rest.map Item.entry).head? table nodes = some (table', nodes') ∧
      Chained F capacity items table' nodes' ∧ Stored items nodes' entries ∧ nodes'.next = nodes.next := by
  induction rest generalizing done fuel table nodes with
  | nil =>
    rw [List.append_nil] at hitems
    subst hitems
    exact ⟨table, nodes, by cases fuel <;> rfl, hc, h, rfl⟩
  | cons it rest ih =>
    cases fuel with
    | zero => exact absurd hfuel (by simp)
    | succ fuel =>
      have hm : it ∈ items := by simp [hitems]
      have hl' : Linked (viewEntries entries) (done.map Item.entry ++ it.entry :: rest.map Item.entry) := by
        simpa [hitems] using hl
      have hentry := h.entry_at hl' hm
      have hnodup' : ((done ++ [it]).map Item.node).Nodup := by
        rw [hitems] at hnodup
        refine hnodup.sublist ?_
        simp
      have hnotmem : it.node ∉ done.map Item.node := by
        rw [List.map_append] at hnodup'
        intro hmem
        exact (List.nodup_append.mp hnodup').2.2 _ hmem _ List.mem_cons_self rfl
      have hb : it.bucket F capacity < capacity := Nat.mod_lt _ hcapacity
      obtain ⟨x, hx, -⟩ := h.get_node hm
      have hlen : done.length ≤ nodes.next := by
        have hle : done.length ≤ items.length := by simp [hitems]
        omega
      -- one round, with the nodes and the table it leaves
      have hround : ∃ table' nodes',
          Map.rehashLoop F entries capacity (fuel + 1) (((it :: rest).map Item.entry).head?) table nodes =
            Map.rehashLoop F entries capacity fuel (rest.map Item.entry).head? table' nodes' ∧
          Chained F capacity (done ++ [it]) table' nodes' ∧
          (∀ n, (nodes'.get n).map MapNode.entry = (nodes.get n).map MapNode.entry) ∧ nodes'.next = nodes.next := by
        show ∃ table' nodes', (entries.get it.entry).bind _ = _ ∧ _
        rw [hentry]
        simp only [Option.bind_some]
        rw [show F.hashKey it.key (F.keyLenCalc it.key) % capacity = it.bucket F capacity from rfl, hc.table _ hb]
        cases hchain : chain F capacity done (it.bucket F capacity) with
        | nil =>
          refine ⟨_, _, rfl, hc.snoc hnodup' ?_ ?_ ?_, fun n => Heap.map_modify nodes _ n fun _ => rfl, rfl⟩
          · rw [hchain, viewNodes_modify, if_pos rfl, hx]
            rfl
          · intro m hmem
            rw [hchain, viewNodes_modify, if_neg (ne_of_mem_of_not_mem hmem hnotmem)]
            rfl
          · intro i _
            by_cases hi : i = it.bucket F capacity
            · rw [if_pos hi, if_pos ⟨hi, hi ▸ hchain⟩]
            · rw [if_neg hi, if_neg (fun hc => hi hc.1)]
        | cons first tail =>
          have hlinked := hc.chains _ hb
          rw [hchain] at hlinked
          have hshort : tail.length < nodes.next + 1 := by
            have hle : (chain F capacity done (it.bucket F capacity)).length ≤ done.length := by
              rw [chain, List.length_map]
              exact List.length_filter_le _ _
            rw [hchain, List.length_cons] at hle
            omega
          have hlast := lastNode_eq [] hlinked hshort
          obtain ⟨last, hlast'⟩ : ∃ last, (first :: tail).getLast? = some last :=
            ⟨(first :: tail).getLast (List.cons_ne_nil _ _), List.getLast?_eq_some_getLast (List.cons_ne_nil _ _)⟩
          have hlastmem : last ∈ done.map Item.node := by
            obtain ⟨it', hit', -, rfl⟩ := mem_chain.mp (hchain ▸ List.mem_of_getLast? hlast')
            exact List.mem_map_of_mem hit'
          have hne : it.node ≠ last := (ne_of_mem_of_not_mem hlastmem hnotmem).symm
          simp only [List.head?_cons, hlast, hlast', Option.bind_some]
          refine ⟨_, _, rfl, hc.snoc hnodup' ?_ ?_ ?_, fun n => ?_, rfl⟩
          · rw [hchain, hlast', viewNodes_modify, if_pos rfl, Heap.get_modify_ne hne, hx]
            rfl
          · intro m hmem
            have hmne : m ≠ it.node := ne_of_mem_of_not_mem hmem hnotmem
            rw [hchain, hlast', viewNodes_modify, if_neg hmne, viewNodes_modify]
            by_cases he : m = last
            · subst he
              rw [if_pos rfl, if_pos rfl, viewNodes, Option.map_map]
              rfl
            · rw [if_neg he, if_neg (fun hc => he (Option.some.inj hc).symm)]
          · intro i _
            rw [if_neg]
            rintro ⟨rfl, hnil⟩
            rw [hchain] at hnil
            cases hnil
          · rw [Heap.map_modify _ _ n (by intros; rfl), Heap.map_modify _ _ n (by intros; rfl)]
      obtain ⟨table', nodes', hrun, hc', hsame, hnext'⟩ := hround
      obtain ⟨table2, nodes2, hrun2, hc2, hstored2, hnext2⟩ := ih (done ++ [it]) (h.relink hsame) (by simpa using hitems)
        (hnext' ▸ hnext) hc' (by simpa using hfuel)
      exact ⟨table2, nodes2, hrun.trans hrun2, hc2, hstored2, hnext2.trans hnext'⟩

end Chained

/-! ## The operations that change the map -/

namespace Map

variable {F : MapFunctions D} {keyOf : D → Nat → κ} {map : Map D V} {items : List (Item D V)} {it : Item D V}

theorem Rep.rehash (h : map.Rep F keyOf items) :
    ∃ map', map.dslinkMapRehashTable F = some map' ∧ map'.Rep F keyOf items := by
  have hempty : Chained F (map.capacity * 2) ([] : List (Item D V)) (fun _ => none) map.nodes :=
    ⟨fun _ _ => rfl, fun _ _ => Linked.nil⟩
  obtain ⟨table', nodes', hrun, hc, hstored, -⟩ := h.stored.rehashLoop [] rfl h.nodesNodup h.list h.items_length_le
    hempty (Nat.mul_pos h.capacity (by decide)) (Nat.le_succ_of_le h.items_length_le_entries)
  refine ⟨{ map with capacity := map.capacity * 2, table := table', nodes := nodes' }, ?_, ?_⟩
  · have hfirst : map.head.next = (items.map Item.entry).head? := by rw [h.head]
    rw [dslinkMapRehashTable, hfirst]
    exact congrArg (Option.map _) hrun
  · exact ⟨h.nodesNodup, h.entriesNodup, h.keysNodup, hstored, h.list, h.head, hc, h.size,
      Nat.mul_pos h.capacity (by decide), h.unlocked⟩

theorem viewEntries_modify (entries : Heap (MapEntry D V)) (f : MapEntry D V → MapEntry D V) (a b : Nat) :
    viewEntries (entries.modify a f) b =
      if b = a then (entries.get a).map (fun x => ⟨(f x).prev, (f x).next⟩) else viewEntries entries b := by
  unfold viewEntries
  rw [Heap.get_modify]
  split
  · rw [Option.map_map]
    rfl
  · rfl

/-- The entry that `list_insert_node` puts at the end. -/
theorem listInsertNode_spec {l : List Nat} {e : Nat} {x : MapEntry D V} (hl : Linked (viewEntries map.entries) l)
    (hnodup : (l ++ [e]).Nodup) (hhead : map.head = ⟨l.getLast?, l.head?⟩) (he : map.entries.get e = some x) :
    Linked (viewEntries (map.listInsertNode e).entries) (l ++ [e]) ∧
    (map.listInsertNode e).head = ⟨(l ++ [e]).getLast?, (l ++ [e]).head?⟩ ∧
    ∀ k, ((map.listInsertNode e).entries.get k).map (fun x => (x.key, x.value, x.node)) =
      (map.entries.get k).map (fun x => (x.key, x.value, x.node)) := by
  have hnotmem : e ∉ l := fun hmem => (List.nodup_append.mp hnodup).2.2 _ hmem _ List.mem_cons_self rfl
  have hhead' : (map.listInsertNode e).head = ⟨some e, if map.head.prev.isNone then some e else map.head.next⟩ := rfl
  refine ⟨hl.snoc hnodup ?_ fun m hm => ?_, ?_, fun k => ?_⟩
  · show viewEntries ((map.entries.modifyIfAny map.head.prev _).modify e _) e = _
    rw [viewEntries_modify, if_pos rfl, Heap.get_modifyIfAny, he, hhead]
    rfl
  · show viewEntries ((map.entries.modifyIfAny map.head.prev _).modify e _) m = _
    rw [viewEntries_modify, if_neg (ne_of_mem_of_not_mem hm hnotmem), viewEntries, Heap.get_modifyIfAny, hhead]
    by_cases hlast : l.getLast? = some m <;> simp only [hlast, if_true, if_false, viewEntries, Option.map_map] <;> rfl
  · rw [hhead', hhead, List.getLast?_concat]
    cases l with
    | nil => rfl
    | cons a l =>
      rw [List.getLast?_cons]
      rfl
  · show (((map.entries.modifyIfAny map.head.prev _).modify e _).get k).map _ = _
    rw [Heap.map_modify _ _ k (by intros; rfl), Heap.map_modifyIfAny _ _ k (by intros; rfl)]

/-- A key that is new, once its node is in its chain. -/
theorem Rep.insertNew (h : map.Rep F keyOf items) (map' : Map D V) {key : D} (value : V)
    (hkey : ∀ it ∈ items, it.keyOf F keyOf ≠ keyOf key (F.keyLenCalc key))
    (hentries : map'.entries = map.entries.alloc ⟨none, none, key, none, map.nodes.next⟩)
    (hhead : map'.head = map.head) (hsize : map'.size = map.size + 1) (hcapacity : map'.capacity = map.capacity)
    (hlocked : map'.locked = map.locked)
    (hnode : (map'.nodes.get map.nodes.next).map MapNode.entry = some map.entries.next)
    (hnodes : ∀ n, n ≠ map.nodes.next → (map'.nodes.get n).map MapNode.entry = (map.nodes.get n).map MapNode.entry)
    (hchained : Chained F map.capacity (items ++ [⟨map.nodes.next, map.entries.next, key, value⟩]) map'.table map'.nodes) :
    ∃ map2, ((map'.nodes.get map.nodes.next).map fun x =>
        { map'.listInsertNode map.entries.next with
          entries := (map'.listInsertNode map.entries.next).entries.modify x.entry
            fun entry => { entry with value := some value } }) = some map2 ∧
      map2.Rep F keyOf (items ++ [⟨map.nodes.next, map.entries.next, key, value⟩]) := by
  obtain ⟨x, hx, hxe⟩ := Option.map_eq_some_iff.mp hnode
  -- both cells are new
  have hfreshNode : ∀ it ∈ items, it.node ≠ map.nodes.next := by
    intro it hit
    obtain ⟨y, hy, -⟩ := h.stored.get_node hit
    exact Heap.ne_next_of_get hy
  have hfreshEntry : ∀ it ∈ items, it.entry ≠ map.entries.next := by
    intro it hit
    obtain ⟨y, hy, -⟩ := h.stored.get_entry hit
    exact Heap.ne_next_of_get hy
  have hnodupE : (items.map Item.entry ++ [map.entries.next]).Nodup := by
    refine List.nodup_append.mpr ⟨h.entriesNodup, List.nodup_singleton _, ?_⟩
    intro a ha b hb
    obtain ⟨it, hit, rfl⟩ := List.mem_map.mp ha
    rw [List.mem_singleton.mp hb]
    exact hfreshEntry it hit
  have hl' : Linked (viewEntries map'.entries) (items.map Item.entry) := by
    refine h.list.congr fun e he => ?_
    obtain ⟨it, hit, rfl⟩ := List.mem_map.mp he
    rw [viewEntries, hentries, Heap.get_alloc, if_neg (hfreshEntry it hit)]
    rfl
  have hget : map'.entries.get map.entries.next = some ⟨none, none, key, none, map.nodes.next⟩ := by
    rw [hentries]
    exact Heap.get_alloc_next _ _
  obtain ⟨hlinked, hhead2, hsame⟩ := listInsertNode_spec hl' hnodupE (hhead.trans h.head) hget
  refine ⟨_, by rw [hx]; rfl, ?_⟩
  -- the value is stored last, which the links of the list do not see
  have hview : ∀ n, viewEntries ((map'.listInsertNode map.entries.next).entries.modify x.entry
      fun entry => { entry with value := some value }) n = viewEntries (map'.listInsertNode map.entries.next).entries n := by
    intro n
    rw [viewEntries_modify]
    split
    · rename_i he
      rw [he]
      rfl
    · rfl
  constructor
  · rw [List.map_append]
    refine List.nodup_append.mpr ⟨h.nodesNodup, List.nodup_singleton _, ?_⟩
    intro a ha b hb
    obtain ⟨it, hit, rfl⟩ := List.mem_map.mp ha
    rw [List.mem_singleton.mp hb]
    exact hfreshNode it hit
  · simpa using hnodupE
  · rw [List.map_append]
    refine List.nodup_append.mpr ⟨h.keysNodup, List.nodup_singleton _, ?_⟩
    intro a ha b hb
    obtain ⟨it, hit, rfl⟩ := List.mem_map.mp ha
    rw [List.mem_singleton.mp hb]
    exact hkey it hit
  · constructor
    · intro it hit
      rcases List.mem_append.mp hit with hit | hit
      · exact (hnodes it.node (hfreshNode it hit)).trans (h.stored.node it hit)
      · obtain rfl := List.mem_singleton.mp hit
        exact hnode
    · intro it hit
      rcases List.mem_append.mp hit with hit | hit
      · have hne : it.entry ≠ x.entry := hxe ▸ hfreshEntry it hit
        show (((map'.listInsertNode map.entries.next).entries.modify x.entry _).get it.entry).map _ = _
        rw [Heap.get_modify_ne hne, hsame, hentries, Heap.get_alloc, if_neg (hfreshEntry it hit)]
        exact h.stored.entry it hit
      · obtain rfl := List.mem_singleton.mp hit
        have hnew := hsame map.entries.next
        rw [hget] at hnew
        obtain ⟨y, hy, hye⟩ := Option.map_eq_some_iff.mp hnew
        simp only [Prod.mk.injEq] at hye
        show (((map'.listInsertNode map.entries.next).entries.modify x.entry _).get map.entries.next).map _ = _
        rw [hxe, Heap.get_modify_self, hy]
        simp [hye.1, hye.2.2]
  · rw [List.map_append]
    exact hlinked.congr fun n _ => hview n
  · rw [List.map_append]
    exact hhead2
  · show Chained F map'.capacity _ map'.table map'.nodes
    rw [hcapacity]
    exact hchained
  · show map'.size = _
    rw [hsize, h.size]
    simp
  · show 0 < map'.capacity
    rw [hcapacity]
    exact h.capacity
  · exact hlocked.trans h.unlocked

/-- The entry of an item with an equal key and another value. -/
theorem Rep.replace (h : map.Rep F keyOf items) (hF : F.Agree keyOf) {l1 l2 : List (Item D V)}
    (hitems : items = l1 ++ it :: l2) {key : D} {value : V} (hkey : keyOf key (F.keyLenCalc key) = it.keyOf F keyOf)
    {entries : Heap (MapEntry D V)} (hview : ∀ e, viewEntries entries e = viewEntries map.entries e)
    (hother : ∀ e, e ≠ it.entry → entries.get e = map.entries.get e)
    (hthis : (entries.get it.entry).map (fun x => (x.key, x.value, x.node)) = some (key, some value, it.node)) :
    Rep F keyOf { map with entries := entries } (l1 ++ { it with key, value } :: l2) := by
  have hnodes : (l1 ++ { it with key, value } :: l2).map Item.node = items.map Item.node := by simp [hitems]
  have hentries : (l1 ++ { it with key, value } :: l2).map Item.entry = items.map Item.entry := by simp [hitems]
  have hkeys : (l1 ++ { it with key, value } :: l2).map (Item.keyOf F keyOf) = items.map (Item.keyOf F keyOf) := by
    rw [hitems, List.map_append, List.map_append, List.map_cons, List.map_cons]
    rw [show Item.keyOf F keyOf { it with key, value } = it.keyOf F keyOf from hkey]
  have hbucket : Item.bucket F map.capacity { it with key, value } = it.bucket F map.capacity := by
    unfold Item.bucket
    rw [show F.hashKey key (F.keyLenCalc key) = F.hashKey it.key (F.keyLenCalc it.key) from hF.hash _ _ _ _ hkey]
  have hchain : ∀ i, chain F map.capacity (l1 ++ { it with key, value } :: l2) i = chain F map.capacity items i := by
    intro i
    rw [hitems, chain_append, chain_append, chain_cons, chain_cons, hbucket]
  have hne : ∀ it' ∈ l1 ++ l2, it'.entry ≠ it.entry := by
    intro it' hit' he
    have hn := h.entriesNodup
    rw [hitems, List.map_append, List.map_cons] at hn
    rcases List.mem_append.mp hit' with hm | hm
    · exact (List.nodup_append.mp hn).2.2 _ (List.mem_map_of_mem hm) _ List.mem_cons_self he
    · exact (List.nodup_cons.mp (List.nodup_append.mp hn).2.1).1 (he ▸ List.mem_map_of_mem hm)
  constructor
  · exact hnodes ▸ h.nodesNodup
  · exact hentries ▸ h.entriesNodup
  · exact hkeys ▸ h.keysNodup
  · constructor
    · intro it' hit'
      rcases List.mem_append.mp hit' with hm | hm
      · exact h.stored.node it' (by simp [hitems, hm])
      · rcases List.mem_cons.mp hm with rfl | hm
        · exact h.stored.node it (by simp [hitems])
        · exact h.stored.node it' (by simp [hitems, hm])
    · intro it' hit'
      have hrest : it' ∈ l1 ++ l2 → (entries.get it'.entry).map (fun x => (x.key, x.value, x.node)) =
          some (it'.key, some it'.value, it'.node) := by
        intro hm
        rw [hother _ (hne it' hm)]
        refine h.stored.entry it' ?_
        rw [hitems]
        rcases List.mem_append.mp hm with hm | hm <;> simp [hm]
      rcases List.mem_append.mp hit' with hm | hm
      · exact hrest (List.mem_append_left _ hm)
      · rcases List.mem_cons.mp hm with rfl | hm
        · exact hthis
        · exact hrest (List.mem_append_right _ hm)
  · rw [hentries]
    exact h.list.congr fun e _ => hview e
  · rw [hentries]
    exact h.head
  · refine ⟨fun i hi => ?_, fun i hi => ?_⟩
    · rw [hchain]
      exact h.chained.table i hi
    · rw [hchain]
      exact h.chained.chains i hi
  · show map.size = _
    rw [h.size, hitems]
    simp
  · exact h.capacity
  · exact h.unlocked

variable [DecidableEq κ]

/-- The loop for a node to use, in the bucket of a key. -/
theorem Rep.rawNode (h : map.Rep F keyOf items) (hF : F.Agree keyOf) (key : D) {first : Nat}
    (hfirst : map.table (map.dslinkMapIndexOfKey F key (F.keyLenCalc key)) = some first) :
    map.rawNodeLoop F key (F.keyLenCalc key) (map.nodes.next + 1) first =
      (((items.find? fun it => it.keyOf F keyOf = keyOf key (F.keyLenCalc key)).map fun it => (it.node, true)).or
        ((chain F map.capacity items (map.dslinkMapIndexOfKey F key (F.keyLenCalc key))).getLast?.map fun n => (n, false))) := by
  have hi := h.index_lt key (F.keyLenCalc key)
  rw [← find_bucket map hF]
  refine h.stored.rawNodeLoop [] ?_ (h.chained.chains _ hi) ?_ ?_
  · intro it hit
    exact (mem_bucketItems.mp hit).1
  · exact Nat.le_trans (List.length_filter_le _ _) (Nat.le_succ_of_le h.items_length_le)
  · exact (h.chained.table _ hi).symm.trans hfirst

/-- The key is there: its entry gets the new key and the value. -/
theorem Rep.setOld (h : map.Rep F keyOf items) (hF : F.Agree keyOf) {key : D} (value : V)
    (hfind : items.find? (fun it => it.keyOf F keyOf = keyOf key (F.keyLenCalc key)) = some it) :
    ∃ map' l1 l2, map.setValue F key value = some map' ∧
      items = l1 ++ it :: l2 ∧ (∀ it' ∈ l1 ++ l2, it'.keyOf F keyOf ≠ keyOf key (F.keyLenCalc key)) ∧
      map'.Rep F keyOf (l1 ++ { it with key, value } :: l2) := by
  obtain ⟨hk, l1, l2, hitems, hother⟩ := h.split hfind
  have hmem : it ∈ items := by simp [hitems]
  have hi := h.index_lt key (F.keyLenCalc key)
  obtain ⟨x, hx, hxe⟩ := h.stored.get_node hmem
  obtain ⟨y, hy, -, -, hynode⟩ := h.stored.get_entry hmem
  have hin : it.node ∈ chain F map.capacity items (map.dslinkMapIndexOfKey F key (F.keyLenCalc key)) :=
    mem_chain.mpr ⟨it, hmem, bucket_of_key map hF hk, rfl⟩
  obtain ⟨first, hfirst⟩ : ∃ first, map.table (map.dslinkMapIndexOfKey F key (F.keyLenCalc key)) = some first := by
    rw [h.chained.table _ hi]
    cases hc : chain F map.capacity items (map.dslinkMapIndexOfKey F key (F.keyLenCalc key)) with
    | nil =>
      rw [hc] at hin
      cases hin
    | cons a l => exact ⟨a, rfl⟩
  have hraw := h.rawNode hF key hfirst
  rw [hfind] at hraw
  have hrep : Rep F keyOf { map with entries := ((map.entries.modify it.entry fun entry => { entry with key }).modify
      it.entry (fun entry => { entry with value := some value })) } (l1 ++ { it with key, value } :: l2) := by
    refine h.replace hF hitems hk.symm (fun e => ?_) (fun e he => ?_) ?_
    · rw [viewEntries_modify]
      split
      · rename_i he
        rw [he, Heap.get_modify_self, hy, viewEntries, hy]
        rfl
      · rename_i he
        rw [viewEntries_modify, if_neg he]
    · rw [Heap.get_modify_ne he, Heap.get_modify_ne he]
    · rw [Heap.get_modify_self, Heap.get_modify_self, hy]
      simp [hynode]
  refine ⟨_, l1, l2, ?_, hitems, hother, hrep⟩
  unfold setValue dslinkMapGetRawNode
  simp only [hfirst, hraw, Option.map_some, Option.some_or, Option.bind_some, if_true, hx, hxe]

/-- The key is not there: it gets a node at the end of its chain. -/
theorem Rep.setNew (h : map.Rep F keyOf items) (hF : F.Agree keyOf) {key : D} (value : V)
    (hfind : items.find? (fun it => it.keyOf F keyOf = keyOf key (F.keyLenCalc key)) = none) :
    ∃ map', map.setValue F key value = some map' ∧
      map'.Rep F keyOf (items ++ [⟨map.nodes.next, map.entries.next, key, value⟩]) := by
  have hkey : ∀ it ∈ items, it.keyOf F keyOf ≠ keyOf key (F.keyLenCalc key) := by
    intro it hit
    simpa using List.find?_eq_none.mp hfind it hit
  have hi := h.index_lt key (F.keyLenCalc key)
  have hbucket : Item.bucket F map.capacity (⟨map.nodes.next, map.entries.next, key, value⟩ : Item D V) =
      map.dslinkMapIndexOfKey F key (F.keyLenCalc key) := rfl
  have hfresh : ∀ n ∈ items.map Item.node, n ≠ map.nodes.next := by
    intro n hn
    obtain ⟨it, hit, rfl⟩ := List.mem_map.mp hn
    obtain ⟨y, hy, -⟩ := h.stored.get_node hit
    exact Heap.ne_next_of_get hy
  have hnodup : ((items ++ [(⟨map.nodes.next, map.entries.next, key, value⟩ : Item D V)]).map Item.node).Nodup := by
    rw [List.map_append]
    refine List.nodup_append.mpr ⟨h.nodesNodup, List.nodup_singleton _, fun a ha b hb => ?_⟩
    rw [List.mem_singleton.mp hb]
    exact hfresh a ha
  cases hc : chain F map.capacity items (map.dslinkMapIndexOfKey F key (F.keyLenCalc key)) with
  | nil =>
    have htable : map.table (map.dslinkMapIndexOfKey F key (F.keyLenCalc key)) = none := by
      rw [h.chained.table _ hi, hc]
      rfl
    obtain ⟨map', hrun, hrep⟩ := h.insertNew
      { map.newNode key none with
        size := map.size + 1
        table := fun i => if i = map.dslinkMapIndexOfKey F key (F.keyLenCalc key) then some map.nodes.next else map.table i }
      value hkey rfl rfl rfl rfl rfl
      (by rw [newNode, Heap.get_alloc_next]; rfl)
      (fun n hn => by rw [newNode, Heap.get_alloc, if_neg hn])
      (h.chained.snoc hnodup (by rw [hbucket, hc, viewNodes, newNode, Heap.get_alloc_next]; rfl)
        (fun m hm => by rw [hbucket, hc, viewNodes, newNode, Heap.get_alloc, if_neg (hfresh m hm)]; rfl)
        (fun i _ => by
          rw [hbucket]
          by_cases hidx : i = map.dslinkMapIndexOfKey F key (F.keyLenCalc key)
          · rw [if_pos ⟨hidx, hidx ▸ hc⟩]
            exact if_pos hidx
          · rw [if_neg (fun hc => hidx hc.1)]
            exact if_neg hidx))
    refine ⟨map', ?_, hrep⟩
    rw [setValue, dslinkMapGetRawNode]
    simp only [htable]
    exact hrun
  | cons first tail =>
    have htable : map.table (map.dslinkMapIndexOfKey F key (F.keyLenCalc key)) = some first := by
      rw [h.chained.table _ hi, hc]
      rfl
    obtain ⟨last, hlast⟩ : ∃ last, (first :: tail).getLast? = some last :=
      ⟨(first :: tail).getLast (List.cons_ne_nil _ _), List.getLast?_eq_some_getLast (List.cons_ne_nil _ _)⟩
    have hraw := h.rawNode hF key htable
    rw [hfind, hc, hlast] at hraw
    have hlastmem : last ∈ items.map Item.node := by
      obtain ⟨it', hit', -, rfl⟩ := mem_chain.mp (hc ▸ List.mem_of_getLast? hlast)
      exact List.mem_map_of_mem hit'
    have hne : map.nodes.next ≠ last := (hfresh last hlastmem).symm
    obtain ⟨map', hrun, hrep⟩ := h.insertNew
      { map.newNode key (some last) with
        size := map.size + 1
        nodes := (map.newNode key (some last)).nodes.modify last fun x => { x with next := some map.nodes.next } }
      value hkey rfl rfl rfl rfl rfl
      (by rw [Heap.get_modify_ne hne, newNode, Heap.get_alloc_next]; rfl)
      (fun n hn => by rw [Heap.map_modify _ _ n (by intros; rfl), newNode, Heap.get_alloc, if_neg hn])
      (h.chained.snoc hnodup
        (by rw [hbucket, hc, hlast, viewNodes, Heap.get_modify_ne hne, newNode, Heap.get_alloc_next]; rfl)
        (fun m hm => by
          rw [hbucket, hc, hlast, viewNodes_modify, newNode]
          simp only [viewNodes, Heap.get_alloc, Option.some.injEq]
          rw [if_neg (hfresh last hlastmem), if_neg (hfresh m hm)]
          by_cases he : m = last
          · rw [if_pos he, if_pos he.symm, he, Option.map_map]
            rfl
          · rw [if_neg he, if_neg (fun h => he h.symm)])
        (fun i _ => by
          rw [hbucket, if_neg]
          · rfl
          · rintro ⟨rfl, hnil⟩
            rw [hc] at hnil
            cases hnil))
    refine ⟨map', ?_, hrep⟩
    rw [setValue, dslinkMapGetRawNode]
    simp only [htable, hraw, Option.map_none, Option.none_or, Option.map_some, Option.bind_some]
    exact hrun

omit [DecidableEq κ] in
/-- The list of all entries after one was taken out and freed. -/
theorem listFreeNode_spec (map : Map D V) {l1 l2 : List Nat} {e : Nat} {x : MapEntry D V}
    (hl : Linked (viewEntries map.entries) (l1 ++ e :: l2)) (hnodup : (l1 ++ e :: l2).Nodup)
    (hhead : map.head = ⟨(l1 ++ e :: l2).getLast?, (l1 ++ e :: l2).head?⟩) (he : map.entries.get e = some x) :
    ∃ map', map.listFreeNode e = some map' ∧ Linked (viewEntries map'.entries) (l1 ++ l2) ∧
      map'.head = ⟨(l1 ++ l2).getLast?, (l1 ++ l2).head?⟩ ∧
      (∀ k, k ≠ e → (map'.entries.get k).map (fun x => (x.key, x.value, x.node)) =
        (map.entries.get k).map fun x => (x.key, x.value, x.node)) ∧
      map'.nodes = map.nodes ∧ map'.table = map.table ∧ map'.size = map.size ∧ map'.capacity = map.capacity ∧
      map'.locked = map.locked := by
  have hview := hl l1 e l2 rfl
  rw [viewEntries, he, Option.map_some, Option.some.injEq, Links.mk.injEq] at hview
  obtain ⟨hprev, hnext⟩ := hview
  have hnotmem : e ∉ l1 ++ l2 := by
    rw [List.nodup_middle] at hnodup
    exact (List.nodup_cons.mp hnodup).1
  have hrun : map.listFreeNode e = some { map with
      head := ⟨if x.next.isNone then x.prev else map.head.prev, if x.prev.isNone then x.next else map.head.next⟩
      entries := (map.entries.relink (fun p y => { y with prev := p }) (fun n y => { y with next := n }) x.prev x.next).free e
      listSize := map.listSize - 1 } := by
    rw [listFreeNode, he]
    rfl
  refine ⟨_, hrun, hl.unlink hnodup fun m hm => ?_, ?_, fun k hk => ?_, rfl, rfl, rfl, rfl, rfl⟩
  · rw [viewEntries, Heap.get_free_ne (ne_of_mem_of_not_mem hm hnotmem),
      Heap.links_relink map.entries (by intros; rfl) (by intros; rfl), hprev, hnext]
    rfl
  · show Links.mk (if x.next.isNone then x.prev else map.head.prev) (if x.prev.isNone then x.next else map.head.next) = _
    rw [hprev, hnext, hhead]
    congr 1
    · cases l2 with
      | nil => simp
      | cons a l2 => simp [List.getLast?_append, List.getLast?_cons]
    · cases l1 with
      | nil => rfl
      | cons a l1 => simp [List.getLast?_cons]
  · show (((map.entries.relink _ _ _ _).free e).get k).map _ = _
    rw [Heap.get_free_ne hk, Heap.relink, Heap.map_modifyIfAny _ _ k (by intros; rfl),
      Heap.map_modifyIfAny _ _ k (by intros; rfl)]

omit [DecidableEq κ] in
/-- The chains after a node was taken out and freed. -/
theorem chained_unlinkNode {l1 l2 : List (Item D V)} (h : Chained F map.capacity (l1 ++ it :: l2) map.table map.nodes)
    (hnodup : ((l1 ++ it :: l2).map Item.node).Nodup) {x : MapNode} (hx : map.nodes.get it.node = some x)
    (hb : it.bucket F map.capacity < map.capacity) :
    Chained F map.capacity (l1 ++ l2) (map.unlinkNode (it.bucket F map.capacity) x).table
      ((map.unlinkNode (it.bucket F map.capacity) x).nodes.free it.node) := by
  have hsplit : chain F map.capacity (l1 ++ it :: l2) (it.bucket F map.capacity) =
      chain F map.capacity l1 (it.bucket F map.capacity) ++ it.node :: chain F map.capacity l2 (it.bucket F map.capacity) := by
    rw [chain_append, chain_cons, if_pos rfl]
  have hother : ∀ i, i ≠ it.bucket F map.capacity →
      chain F map.capacity (l1 ++ it :: l2) i = chain F map.capacity (l1 ++ l2) i := by
    intro i hi
    rw [chain_append, chain_cons, if_neg (Ne.symm hi), chain_append]
  have hlinked := h.chains _ hb
  rw [hsplit] at hlinked
  have hview := hlinked _ _ _ rfl
  rw [viewNodes, hx, Option.map_some, Option.some.injEq, Links.mk.injEq] at hview
  obtain ⟨hprev, hnext⟩ := hview
  have hnotmem : it.node ∉ (l1 ++ l2).map Item.node := by
    rw [List.map_append, List.map_cons, List.nodup_middle] at hnodup
    rw [List.map_append]
    exact (List.nodup_cons.mp hnodup).1
  have hne : ∀ i, ∀ m ∈ chain F map.capacity (l1 ++ l2) i, m ≠ it.node := by
    intro i m hm
    obtain ⟨it', hit', -, rfl⟩ := mem_chain.mp hm
    exact ne_of_mem_of_not_mem (List.mem_map_of_mem hit') hnotmem
  have hlinks : ∀ m, m ≠ it.node → viewNodes ((map.unlinkNode (it.bucket F map.capacity) x).nodes.free it.node) m =
      (viewNodes map.nodes m).map fun y =>
        ⟨if x.next = some m then x.prev else y.prev, if x.prev = some m then x.next else y.next⟩ := by
    intro m hm
    rw [viewNodes, Heap.get_free_ne hm]
    exact Heap.links_relink map.nodes (by intros; rfl) (by intros; rfl) _ _ m
  have htable : ∀ i, (map.unlinkNode (it.bucket F map.capacity) x).table i =
      if i = it.bucket F map.capacity ∧ x.prev = none then x.next else map.table i := fun _ => rfl
  refine ⟨fun i hi => ?_, fun i hi => ?_⟩
  · rw [htable, h.table i hi]
    by_cases he : i = it.bucket F map.capacity
    · subst he
      rw [hsplit, chain_append, hprev, hnext]
      cases chain F map.capacity l1 (it.bucket F map.capacity) with
      | nil => simp
      | cons a l => simp [List.getLast?_cons]
    · rw [if_neg (fun hc => he hc.1), hother i he]
  · by_cases he : i = it.bucket F map.capacity
    · subst he
      rw [chain_append]
      refine hlinked.unlink (hsplit ▸ chain_nodup hnodup) fun m hm => ?_
      rw [hlinks m (hne (it.bucket F map.capacity) m (by rw [chain_append]; exact hm)), hprev, hnext]
    · refine (hother i he ▸ h.chains i hi).congr fun m hm => ?_
      rw [hlinks m (hne i m hm)]
      -- the neighbours are in the chain of another bucket
      have hbucket : ∀ n ∈ chain F map.capacity (l1 ++ it :: l2) (it.bucket F map.capacity), n ≠ m := by
        rintro n hn rfl
        rw [← hother i he] at hm
        obtain ⟨it1, h1, hb1, hn1⟩ := mem_chain.mp hm
        obtain ⟨it2, h2, hb2, hn2⟩ := mem_chain.mp hn
        rw [eq_of_node hnodup h1 h2 (hn1.trans hn2.symm)] at hb1
        exact he (hb1.symm.trans hb2)
      have hp : x.prev ≠ some m := by
        rw [hprev]
        intro hlast
        exact hbucket m (by rw [hsplit]; exact List.mem_append_left _ (List.mem_of_getLast? hlast)) rfl
      have hn : x.next ≠ some m := by
        rw [hnext]
        intro hfirst
        exact hbucket m (by
          rw [hsplit]
          exact List.mem_append_right _ (List.mem_cons_of_mem _ (List.mem_of_mem_head? hfirst))) rfl
      simp only [if_neg hp, if_neg hn]
      cases viewNodes map.nodes m <;> rfl

/-- The key is there: its node and its entry are freed. -/
theorem Rep.removeOld (h : map.Rep F keyOf items) (hF : F.Agree keyOf) {key : D} {len : Nat}
    (hfind : items.find? (fun it => it.keyOf F keyOf = keyOf key len) = some it) :
    ∃ map' l1 l2, map.dslinkMapRemovelGet F key len = some (map', some it.value) ∧ items = l1 ++ it :: l2 ∧
      (∀ it' ∈ l1 ++ l2, it'.keyOf F keyOf ≠ keyOf key len) ∧ map'.Rep F keyOf (l1 ++ l2) := by
  obtain ⟨hk, l1, l2, rfl, hother⟩ := h.split hfind
  have hmem : it ∈ l1 ++ it :: l2 := by simp
  have hb : it.bucket F map.capacity = map.dslinkMapIndexOfKey F key len := bucket_of_key map hF hk
  obtain ⟨x, hx, hxe⟩ := h.stored.get_node hmem
  obtain ⟨y, hy, hykey, hyvalue, hynode⟩ := h.stored.get_entry hmem
  have hsub : (l1 ++ l2).Sublist (l1 ++ it :: l2) := (List.sublist_cons_self it l2).append_left l1
  have hnotnode : it.node ∉ (l1 ++ l2).map Item.node := by
    have hn := h.nodesNodup
    rw [List.map_append, List.map_cons, List.nodup_middle] at hn
    rw [List.map_append]
    exact (List.nodup_cons.mp hn).1
  have hnotentry : it.entry ∉ (l1 ++ l2).map Item.entry := by
    have hn := h.entriesNodup
    rw [List.map_append, List.map_cons, List.nodup_middle] at hn
    rw [List.map_append]
    exact (List.nodup_cons.mp hn).1
  have hlist := h.list
  have hhead := h.head
  have hnodup := h.entriesNodup
  rw [List.map_append, List.map_cons] at hlist hhead hnodup
  obtain ⟨map', hfree, hlinked', hhead', hsame, hnodes, htable, hsize, hcapacity, hlocked⟩ :=
    listFreeNode_spec (map.unlinkNode (it.bucket F map.capacity) x) hlist hnodup hhead hy
  have hchained := chained_unlinkNode h.chained h.nodesNodup hx (hb ▸ h.index_lt key len)
  refine ⟨{ map' with nodes := map'.nodes.free it.node, size := map'.size - 1 }, l1, l2, ?_, rfl, hother, ?_⟩
  · unfold dslinkMapRemovelGet
    rw [if_neg (by rw [h.unlocked]; decide), h.findNode hF, hfind]
    show (map.nodes.get it.node).bind _ = _
    rw [hx, Option.bind_some, hxe, hy, Option.bind_some, ← hb, hfree, Option.map_some, hyvalue]
  · constructor
    · exact h.nodesNodup.sublist (hsub.map _)
    · exact h.entriesNodup.sublist (hsub.map _)
    · exact h.keysNodup.sublist (hsub.map _)
    · constructor
      · intro it' hit'
        have hne : it'.node ≠ it.node := ne_of_mem_of_not_mem (List.mem_map_of_mem hit') hnotnode
        show ((map'.nodes.free it.node).get it'.node).map _ = _
        rw [Heap.get_free_ne hne, hnodes]
        show (((map.nodes.relink _ _ _ _).get it'.node).map MapNode.entry) = _
        rw [Heap.relink, Heap.map_modifyIfAny _ _ _ (by intros; rfl), Heap.map_modifyIfAny _ _ _ (by intros; rfl)]
        exact h.stored.node it' (hsub.subset hit')
      · intro it' hit'
        have hne : it'.entry ≠ it.entry := ne_of_mem_of_not_mem (List.mem_map_of_mem hit') hnotentry
        exact (hsame it'.entry hne).trans (h.stored.entry it' (hsub.subset hit'))
    · rw [List.map_append]
      exact hlinked'
    · rw [List.map_append]
      exact hhead'
    · show Chained F map'.capacity (l1 ++ l2) map'.table (map'.nodes.free it.node)
      rw [hcapacity, htable, hnodes]
      exact hchained
    · show map'.size - 1 = _
      rw [hsize]
      show map.size - 1 = _
      rw [h.size]
      simp
    · show 0 < map'.capacity
      rw [hcapacity]
      exact h.capacity
    · exact hlocked.trans h.unlocked

theorem Rep.removeNone (h : map.Rep F keyOf items) (hF : F.Agree keyOf) {key : D} {len : Nat}
    (hfind : items.find? (fun it => it.keyOf F keyOf = keyOf key len) = none) :
    map.dslinkMapRemovelGet F key len = some (map, none) := by
  unfold dslinkMapRemovelGet
  rw [if_neg (by rw [h.unlocked]; decide), h.findNode hF, hfind]
  rfl

omit [DecidableEq κ] in
/-- Clearing frees the entries of the list one after the other. -/
theorem entryClear_isSome {rest : List (Item D V)} (done : List (Item D V)) {fuel : Nat}
    {entries entries' : Heap (MapEntry D V)} (h : Stored items map.nodes entries) (hitems : items = done ++ rest)
    (hl : Linked (viewEntries entries) (items.map Item.entry)) (hnodup : (items.map Item.entry).Nodup)
    (hsame : ∀ it ∈ rest, entries'.get it.entry = entries.get it.entry) (hfuel : rest.length ≤ fuel) (nodes : Heap MapNode) :
    ∃ r, entryClear fuel (rest.map Item.entry).head? nodes entries' = some r := by
  induction rest generalizing done fuel entries' nodes with
  | nil => exact ⟨_, by cases fuel <;> rfl⟩
  | cons it rest ih =>
    cases fuel with
    | zero => exact absurd hfuel (by simp)
    | succ fuel =>
      have hl' : Linked (viewEntries entries) (done.map Item.entry ++ it.entry :: rest.map Item.entry) := by
        simpa [hitems] using hl
      have hentry := h.entry_at hl' (by simp [hitems])
      show ∃ r, (entries'.get it.entry).bind _ = some r
      rw [hsame it List.mem_cons_self, hentry, Option.bind_some]
      refine ih (done ++ [it]) (by simpa using hitems) (fun it' hit' => ?_) (by simpa using hfuel) _
      rw [hitems, List.map_append, List.map_cons] at hnodup
      have hnotmem : it.entry ∉ rest.map Item.entry := (List.nodup_cons.mp (List.nodup_append.mp hnodup).2.1).1
      rw [Heap.get_free_ne (ne_of_mem_of_not_mem (List.mem_map_of_mem hit') hnotmem)]
      exact hsame it' (List.mem_cons_of_mem _ hit')

omit [DecidableEq κ] in
/-- A map without items, whatever was freed before. -/
theorem rep_nil {nodes : Heap MapNode} {entries : Heap (MapEntry D V)} {capacity listSize : Nat} (hc : 0 < capacity) :
    Rep F keyOf (⟨0, capacity, fun _ => none, ⟨none, none⟩, listSize, false, nodes, entries⟩ : Map D V) [] where
  nodesNodup := .nil
  entriesNodup := .nil
  keysNodup := .nil
  stored := ⟨by rintro _ ⟨⟩, by rintro _ ⟨⟩⟩
  list := Linked.nil
  head := rfl
  chained := ⟨fun _ _ => rfl, fun _ _ => Linked.nil⟩
  size := rfl
  capacity := hc
  unlocked := rfl

omit [DecidableEq κ] in
theorem Rep.clear (h : map.Rep F keyOf items) : ∃ map', map.dslinkMapClear = some map' ∧ map'.Rep F keyOf [] := by
  unfold dslinkMapClear
  split
  · obtain ⟨r, hr⟩ := entryClear_isSome [] h.stored rfl h.list h.entriesNodup (fun _ _ => rfl)
      (Nat.le_succ_of_le h.items_length_le_entries) map.nodes
    have hfirst : map.head.next = (items.map Item.entry).head? := by rw [h.head]
    have hlocked := h.unlocked
    rw [hfirst, hr]
    refine ⟨_, rfl, ?_⟩
    obtain ⟨size, capacity, table, head, listSize, locked, nodes, entries⟩ := map
    obtain rfl : locked = false := hlocked
    exact rep_nil h.capacity
  · rename_i hsize
    have hnil : items = [] := by
      rw [h.size] at hsize
      exact List.length_eq_zero_iff.mp (by omega)
    exact ⟨map, rfl, hnil ▸ h⟩

/-! ## Runs -/

theorem setIn_append {l1 l2 : List (κ × V)} {k : κ} (v : V) (h : ∀ e ∈ l1, e.1 ≠ k) :
    AssocMap.setIn k v (l1 ++ l2) = l1 ++ AssocMap.setIn k v l2 := by
  induction l1 with
  | nil => rfl
  | cons e l1 ih =>
    obtain ⟨k', v'⟩ := e
    rw [List.cons_append, AssocMap.setIn, if_neg (h _ List.mem_cons_self),
      ih fun e he => h e (List.mem_cons_of_mem _ he)]
    rfl

theorem eraseIn_append {l1 l2 : List (κ × V)} {k : κ} (h : ∀ e ∈ l1, e.1 ≠ k) :
    AssocMap.eraseIn k (l1 ++ l2) = l1 ++ AssocMap.eraseIn k l2 := by
  induction l1 with
  | nil => rfl
  | cons e l1 ih =>
    obtain ⟨k', v'⟩ := e
    rw [List.cons_append, AssocMap.eraseIn, if_neg (h _ List.mem_cons_self),
      ih fun e he => h e (List.mem_cons_of_mem _ he)]
    rfl

omit [DecidableEq κ] in
theorem listOf_ne {l : List (Item D V)} {k : κ} (h : ∀ it ∈ l, it.keyOf F keyOf ≠ k) :
    ∀ e ∈ listOf F keyOf l, e.1 ≠ k := by
  intro e he
  obtain ⟨it, hit, rfl⟩ := List.mem_map.mp he
  exact h it hit

/-- Setting is setting in the association list. -/
theorem Rep.set (h : map.Rep F keyOf items) (hF : F.Agree keyOf) (key : D) (value : V) :
    ∃ map' items', map.dslinkMapSet F key value = some map' ∧ map'.Rep F keyOf items' ∧
      listOf F keyOf items' = AssocMap.setIn (keyOf key (F.keyLenCalc key)) value (listOf F keyOf items) := by
  have hrehash : ∃ map1, (if F.overloaded map.size map.capacity then map.dslinkMapRehashTable F else some map) = some map1 ∧
      map1.Rep F keyOf items := by
    split
    · exact h.rehash
    · exact ⟨map, rfl, h⟩
  obtain ⟨map1, hrun, h1⟩ := hrehash
  rw [dslinkMapSet, hrun, Option.bind_some]
  cases hfind : items.find? fun it => it.keyOf F keyOf = keyOf key (F.keyLenCalc key) with
  | none =>
    obtain ⟨map', hset, hrep⟩ := h1.setNew hF value hfind
    refine ⟨map', _, hset, hrep, ?_⟩
    have hne : ∀ it ∈ items, it.keyOf F keyOf ≠ keyOf key (F.keyLenCalc key) := by
      intro it hit
      simpa using List.find?_eq_none.mp hfind it hit
    rw [← List.append_nil (listOf F keyOf items), setIn_append value (listOf_ne hne), listOf, List.map_append]
    rfl
  | some it =>
    obtain ⟨map', l1, l2, hset, rfl, hother, hrep⟩ := h1.setOld hF value hfind
    refine ⟨map', _, hset, hrep, ?_⟩
    have hk : it.keyOf F keyOf = keyOf key (F.keyLenCalc key) := by simpa using List.find?_some hfind
    have hne := listOf_ne fun it' hit' => hother it' (List.mem_append_left l2 hit')
    rw [show listOf F keyOf (l1 ++ it :: l2) = listOf F keyOf l1 ++ (it.keyOf F keyOf, it.value) :: listOf F keyOf l2 by
      simp [listOf], setIn_append value hne, AssocMap.setIn, if_pos hk]
    simp [listOf, Item.keyOf]

/-- Removing is erasing from the association list. -/
theorem Rep.remove (h : map.Rep F keyOf items) (hF : F.Agree keyOf) (key : D) (len : Nat) :
    ∃ map' items', map.dslinkMapRemovelGet F key len =
        some (map', AssocMap.lookupIn (keyOf key len) (listOf F keyOf items)) ∧
      map'.Rep F keyOf items' ∧ listOf F keyOf items' = AssocMap.eraseIn (keyOf key len) (listOf F keyOf items) := by
  rw [lookup_listOf]
  cases hfind : items.find? fun it => it.keyOf F keyOf = keyOf key len with
  | none =>
    refine ⟨map, items, h.removeNone hF hfind, h, ?_⟩
    have hne : ∀ it ∈ items, it.keyOf F keyOf ≠ keyOf key len := by
      intro it hit
      simpa using List.find?_eq_none.mp hfind it hit
    rw [← List.append_nil (listOf F keyOf items), eraseIn_append (listOf_ne hne)]
    rfl
  | some it =>
    obtain ⟨map', l1, l2, hremove, rfl, hother, hrep⟩ := h.removeOld hF hfind
    refine ⟨map', _, hremove, hrep, ?_⟩
    have hk : it.keyOf F keyOf = keyOf key len := by simpa using List.find?_some hfind
    have hne := listOf_ne fun it' hit' => hother it' (List.mem_append_left l2 hit')
    rw [show listOf F keyOf (l1 ++ it :: l2) = listOf F keyOf l1 ++ (it.keyOf F keyOf, it.value) :: listOf F keyOf l2 by
      simp [listOf], eraseIn_append hne, AssocMap.eraseIn, if_pos hk]
    simp [listOf]

/-- One operation gives what it gives on the association list, and leaves the same association list. -/
theorem Rep.exec (h : map.Rep F keyOf items) (hF : F.Agree keyOf) {list : AssocMap κ V}
    (hlist : list.entries = listOf F keyOf items) (op : Op D V) :
    ∃ map' items', map.exec F keyOf op = some (map', (spec F keyOf list op).2) ∧ map'.Rep F keyOf items' ∧
      (spec F keyOf list op).1.entries = listOf F keyOf items' := by
  have hget : ∀ k, list.get k = AssocMap.lookupIn k (listOf F keyOf items) := fun k => congrArg (AssocMap.lookupIn k) hlist
  have hremoves : ∀ key len, ∃ map' items', map.dslinkMapRemovelGet F key len = some (map', list.get (keyOf key len)) ∧
      map'.Rep F keyOf items' ∧ (list.erase (keyOf key len)).entries = listOf F keyOf items' := by
    intro key len
    obtain ⟨map', items', hrun, hrep, hl⟩ := h.remove hF key len
    refine ⟨map', items', by rw [hrun, hget], hrep, ?_⟩
    rw [hl, ← hlist]
    rfl
  have hremovel : ∀ key len, ∃ map' items', map.dslinkMapRemovel F key len = some map' ∧ map'.Rep F keyOf items' ∧
      (list.erase (keyOf key len)).entries = listOf F keyOf items' := by
    intro key len
    obtain ⟨map', items', hrun, hrep, hl⟩ := hremoves key len
    refine ⟨map', items', ?_, hrep, hl⟩
    rw [dslinkMapRemovel, if_neg (by rw [h.unlocked]; decide), hrun]
    rfl
  have hgetl : ∀ key len, map.dslinkMapGetl F key len = some (list.get (keyOf key len)) := by
    intro key len
    rw [h.getl hF, hget]
  have hcontains : ∀ key len, map.dslinkMapContainsl F key len = some (list.get (keyOf key len)).isSome := by
    intro key len
    rw [h.containsl hF, hget]
  cases op with
  | set key value =>
    obtain ⟨map', items', hrun, hrep, hl⟩ := h.set hF key value
    refine ⟨map', items', by rw [Map.exec, hrun]; rfl, hrep, ?_⟩
    rw [hl, ← hlist]
    rfl
  | get key => exact ⟨map, items, by rw [Map.exec, dslinkMapGet, hgetl]; rfl, h, hlist⟩
  | getl key len => exact ⟨map, items, by rw [Map.exec, hgetl]; rfl, h, hlist⟩
  | contains key => exact ⟨map, items, by rw [Map.exec, dslinkMapContains, hcontains]; rfl, h, hlist⟩
  | containsl key len => exact ⟨map, items, by rw [Map.exec, hcontains]; rfl, h, hlist⟩
  | remove key =>
    obtain ⟨map', items', hrun, hrep, hl⟩ := hremovel key (F.keyLenCalc key)
    exact ⟨map', items', by rw [Map.exec, dslinkMapRemove, hrun]; rfl, hrep, hl⟩
  | removel key len =>
    obtain ⟨map', items', hrun, hrep, hl⟩ := hremovel key len
    exact ⟨map', items', by rw [Map.exec, hrun]; rfl, hrep, hl⟩
  | removeGet key =>
    obtain ⟨map', items', hrun, hrep, hl⟩ := hremoves key (F.keyLenCalc key)
    exact ⟨map', items', by rw [Map.exec, dslinkMapRemoveGet, hrun]; rfl, hrep, hl⟩
  | removelGet key len =>
    obtain ⟨map', items', hrun, hrep, hl⟩ := hremoves key len
    exact ⟨map', items', by rw [Map.exec, hrun]; rfl, hrep, hl⟩
  | clear =>
    obtain ⟨map', hrun, hrep⟩ := h.clear
    exact ⟨map', [], by rw [Map.exec, hrun]; rfl, hrep, rfl⟩
  | foreach =>
    refine ⟨map, items, ?_, h, hlist⟩
    rw [Map.exec, h.foreach, Option.map_some, spec, hlist, listOf, List.map_map, List.map_map]
    rfl
  | size =>
    refine ⟨map, items, ?_, h, hlist⟩
    rw [Map.exec, h.size, spec, AssocMap.size, hlist, listOf, List.length_map]

/-- The operations one after the other. -/
theorem Rep.run (h : map.Rep F keyOf items) (hF : F.Agree keyOf) {list : AssocMap κ V}
    (hlist : list.entries = listOf F keyOf items) (ops : List (Op D V)) :
    ∃ map', map.run F keyOf ops = some (map', (specRun F keyOf list ops).2) ∧
      map'.size = (specRun F keyOf list ops).1.size ∧
      map'.dslinkMapForeach.map (fun l => l.map fun e => (keyOf e.1 (F.keyLenCalc e.1), e.2)) =
        some ((specRun F keyOf list ops).1.entries.map fun e => (e.1, some e.2)) := by
  induction ops generalizing map items list with
  | nil =>
    refine ⟨map, rfl, ?_, ?_⟩
    · show map.size = list.size
      rw [h.size, AssocMap.size, hlist, listOf, List.length_map]
    · rw [h.foreach, Option.map_some]
      show _ = some (list.entries.map _)
      rw [hlist, listOf, List.map_map, List.map_map]
      rfl
  | cons op ops ih =>
    obtain ⟨map1, items1, hexec, h1, hlist1⟩ := h.exec hF hlist op
    obtain ⟨map', hrun, hsize, heach⟩ := ih h1 hlist1
    refine ⟨map', ?_, hsize, heach⟩
    rw [Map.run, hexec, Option.bind_some, hrun]
    rfl

end Map

end DSLink.Col
