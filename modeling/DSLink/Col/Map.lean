import DSLink.Lib.AssocMap
import DSLink.Lib.Heap
import DSLink.Lib.Linked

/-!
# `Col.Map` — the hash map of `sdk/src/col/map.c`

Every key has a `MapNode` in the chain of its bucket and a `MapEntry` in the list of all entries. The functions
below are the source's, on the pointers: a NULL or freed pointer that is read makes them give `none`. The references
are values here: the map owns one count of each key and each value that it holds.

## Contents

* `MapFunctions` — the comparator and the other functions a map is made with, and what is asked of them.
* `dslinkMapSet` … `dslinkMapForeach` — the operations.
* `Op`, `Map.run` — sequences of operations, and `spec`, the same on an association list.
-/

namespace DSLink.Col

/-- What a map is made with. `cmp` tells whether the comparator gives 0; `overloaded size capacity` is the comparison
    of the load factor, a float, with the maximal one. -/
structure MapFunctions (D : Type) where
  cmp : D → D → Nat → Bool
  keyLenCalc : D → Nat
  hashKey : D → Nat → Nat
  overloaded : Nat → Nat → Bool

/-- Comparator, length and hash function agree on which keys are equal: the first `len` bytes of `data` stand for the
    key `keyOf data len`. -/
structure MapFunctions.Agree {D κ : Type} (F : MapFunctions D) (keyOf : D → Nat → κ) : Prop where
  cmp : ∀ data other len, F.cmp data other len = true ↔ keyOf data (F.keyLenCalc data) = keyOf other len
  hash : ∀ data len other len', keyOf data len = keyOf other len' → F.hashKey data len = F.hashKey other len'

/-- `MapNode`. -/
structure MapNode where
  prev : Option Nat
  next : Option Nat
  entry : Nat

/-- `MapEntry`. `none` for a neighbour is the head of the list. -/
structure MapEntry (D V : Type) where
  prev : Option Nat
  next : Option Nat
  key : D
  value : Option V
  node : Nat

/-- `Map`, with the nodes and the entries it has allocated. `head` is the head of `list`. -/
structure Map (D V : Type) where
  size : Nat
  capacity : Nat
  table : Nat → Option Nat
  head : Links
  listSize : Nat
  locked : Bool
  nodes : Heap MapNode
  entries : Heap (MapEntry D V)

namespace Map

variable {D V : Type}

/-- `dslink_map_initb`. -/
def dslinkMapInitb (buckets : Nat) : Map D V :=
  ⟨0, buckets, fun _ => none, ⟨none, none⟩, 0, false, .empty, .empty⟩

/-- `dslink_map_index_of_key`. -/
def dslinkMapIndexOfKey (F : MapFunctions D) (map : Map D V) (key : D) (len : Nat) : Nat :=
  F.hashKey key len % map.capacity

/-- `list_insert_node`: in front of the head, behind the last entry. -/
def listInsertNode (map : Map D V) (entry : Nat) : Map D V :=
  let last := map.head.prev
  { map with
    head := ⟨some entry, if last.isNone then some entry else map.head.next⟩
    entries := (map.entries.modifyIfAny last fun x => { x with next := some entry }).modify entry
      fun x => { x with prev := last, next := none }
    listSize := map.listSize + 1 }

/-- `list_free_node`. -/
def listFreeNode (map : Map D V) (entry : Nat) : Option (Map D V) :=
  (map.entries.get entry).map fun x =>
    { map with
      head := ⟨if x.next.isNone then x.prev else map.head.prev, if x.prev.isNone then x.next else map.head.next⟩
      entries := (map.entries.relink (fun p y => { y with prev := p }) (fun n y => { y with next := n })
        x.prev x.next).free entry
      listSize := map.listSize - 1 }

/-- `(*node)->entry`. -/
def entryOf (map : Map D V) (node : Nat) : Option (MapEntry D V) :=
  (map.nodes.get node).bind fun x => map.entries.get x.entry

/-- The loop of `dslink_map_get_raw_node`: the node of an equal key, or the last one of the chain. -/
def rawNodeLoop (F : MapFunctions D) (map : Map D V) (key : D) (len : Nat) : Nat → Nat → Option (Nat × Bool)
  | 0, _ => none
  | fuel + 1, node =>
    (map.nodes.get node).bind fun x => (map.entries.get x.entry).bind fun entry =>
      if F.cmp entry.key key len then some (node, true)
      else
        match x.next with
        | none => some (node, false)
        | some tmp => rawNodeLoop F map key len fuel tmp

/-- A new node with its entry behind `prev`. -/
def newNode (map : Map D V) (key : D) (prev : Option Nat) : Map D V :=
  { map with
    nodes := map.nodes.alloc ⟨prev, none, map.entries.next⟩
    entries := map.entries.alloc ⟨none, none, key, none, map.nodes.next⟩ }

/-- `dslink_map_get_raw_node`, with the address of the node. -/
def dslinkMapGetRawNode (F : MapFunctions D) (map : Map D V) (key : D) : Option (Map D V × Nat) :=
  let len := F.keyLenCalc key
  let index := map.dslinkMapIndexOfKey F key len
  match map.table index with
  | none =>
    let node := map.nodes.next
    let entry := map.entries.next
    let map := { map.newNode key none with table := fun i => if i = index then some node else map.table i }
    some (({ map with size := map.size + 1 }).listInsertNode entry, node)
  | some first =>
    (map.rawNodeLoop F key len (map.nodes.next + 1) first).bind fun r =>
      if r.2 then
        (map.nodes.get r.1).map fun x =>
          ({ map with entries := map.entries.modify x.entry fun entry => { entry with key } }, r.1)
      else
        let node := map.nodes.next
        let entry := map.entries.next
        let map := map.newNode key (some r.1)
        let map := { map with nodes := map.nodes.modify r.1 fun x => { x with next := some node } }
        some (({ map with size := map.size + 1 }).listInsertNode entry, node)

/-- The inner loop of `dslink_map_rehash_table`: the last node of a chain. -/
def lastNode (nodes : Heap MapNode) : Nat → Nat → Option Nat
  | 0, _ => none
  | fuel + 1, node =>
    (nodes.get node).bind fun x =>
      match x.next with
      | none => some node
      | some tmp => lastNode nodes fuel tmp

/-- The loop of `dslink_map_rehash_table` over the entries, with the new table. -/
def rehashLoop (F : MapFunctions D) (entries : Heap (MapEntry D V)) (capacity : Nat) :
    Nat → Option Nat → (Nat → Option Nat) → Heap MapNode → Option ((Nat → Option Nat) × Heap MapNode)
  | _, none, table, nodes => some (table, nodes)
  | 0, some _, _, _ => none
  | fuel + 1, some e, table, nodes =>
    (entries.get e).bind fun entry =>
      let index := F.hashKey entry.key (F.keyLenCalc entry.key) % capacity
      match table index with
      | some node =>
        (lastNode nodes (nodes.next + 1) node).bind fun node =>
          rehashLoop F entries capacity fuel entry.next table
            ((nodes.modify node fun x => { x with next := some entry.node }).modify entry.node
              fun x => { x with prev := some node, next := none })
      | none =>
        rehashLoop F entries capacity fuel entry.next (fun i => if i = index then some entry.node else table i)
          (nodes.modify entry.node fun x => { x with prev := none, next := none })

/-- `dslink_map_rehash_table`. -/
def dslinkMapRehashTable (F : MapFunctions D) (map : Map D V) : Option (Map D V) :=
  let newCapacity := map.capacity * 2
  (rehashLoop F map.entries newCapacity (map.entries.next + 1) map.head.next (fun _ => none) map.nodes).map fun r =>
    { map with capacity := newCapacity, table := r.1, nodes := r.2 }

/-- `dslink_map_set` after the rehash. -/
def setValue (F : MapFunctions D) (map : Map D V) (key : D) (value : V) : Option (Map D V) :=
  (map.dslinkMapGetRawNode F key).bind fun r =>
    (r.1.nodes.get r.2).map fun x =>
      { r.1 with entries := r.1.entries.modify x.entry fun entry => { entry with value := some value } }

/-- `dslink_map_set`. -/
def dslinkMapSet (F : MapFunctions D) (map : Map D V) (key : D) (value : V) : Option (Map D V) :=
  (if F.overloaded map.size map.capacity then map.dslinkMapRehashTable F else some map).bind fun map =>
    map.setValue F key value

/-- The loop over a chain of `dslink_map_removel_get`, `dslink_map_containsl` and `dslink_map_getl`. -/
def findLoop (F : MapFunctions D) (map : Map D V) (key : D) (len : Nat) : Nat → Option Nat → Option (Option Nat)
  | _, none => some none
  | 0, some _ => none
  | fuel + 1, some node =>
    (map.nodes.get node).bind fun x => (map.entries.get x.entry).bind fun entry =>
      if F.cmp entry.key key len then some (some node) else findLoop F map key len fuel x.next

/-- The loop from the bucket of the key on. -/
def findNode (F : MapFunctions D) (map : Map D V) (key : D) (len : Nat) : Option (Option Nat) :=
  map.findLoop F key len (map.nodes.next + 1) (map.table (map.dslinkMapIndexOfKey F key len))

/-- The node is taken out of its chain; the bucket loses it if it was the first one. -/
def unlinkNode (map : Map D V) (index : Nat) (x : MapNode) : Map D V :=
  { map with
    nodes := map.nodes.relink (fun p y => { y with prev := p }) (fun n y => { y with next := n }) x.prev x.next
    table := fun i => if i = index ∧ x.prev = none then x.next else map.table i }

/-- `dslink_map_removel_get`, with the reference it returns. -/
def dslinkMapRemovelGet (F : MapFunctions D) (map : Map D V) (key : D) (len : Nat) : Option (Map D V × Option V) :=
  if map.locked then some (map, none)
  else
    (map.findNode F key len).bind fun r =>
      match r with
      | none => some (map, none)
      | some node =>
        (map.nodes.get node).bind fun x => (map.entries.get x.entry).bind fun entry =>
          ((map.unlinkNode (map.dslinkMapIndexOfKey F key len) x).listFreeNode x.entry).map fun map =>
            ({ map with nodes := map.nodes.free node, size := map.size - 1 }, entry.value)

/-- `dslink_map_remove_get`. -/
def dslinkMapRemoveGet (F : MapFunctions D) (map : Map D V) (key : D) : Option (Map D V × Option V) :=
  map.dslinkMapRemovelGet F key (F.keyLenCalc key)

/-- `dslink_map_removel`. -/
def dslinkMapRemovel (F : MapFunctions D) (map : Map D V) (key : D) (len : Nat) : Option (Map D V) :=
  if map.locked then some map else (map.dslinkMapRemovelGet F key len).map Prod.fst

/-- `dslink_map_remove`. -/
def dslinkMapRemove (F : MapFunctions D) (map : Map D V) (key : D) : Option (Map D V) :=
  map.dslinkMapRemovel F key (F.keyLenCalc key)

/-- `dslink_map_containsl`. -/
def dslinkMapContainsl (F : MapFunctions D) (map : Map D V) (key : D) (len : Nat) : Option Bool :=
  (map.findNode F key len).map Option.isSome

/-- `dslink_map_contains`. -/
def dslinkMapContains (F : MapFunctions D) (map : Map D V) (key : D) : Option Bool :=
  map.dslinkMapContainsl F key (F.keyLenCalc key)

/-- `dslink_map_getl`. -/
def dslinkMapGetl (F : MapFunctions D) (map : Map D V) (key : D) (len : Nat) : Option (Option V) :=
  (map.findNode F key len).bind fun r =>
    match r with
    | none => some none
    | some node => (map.entryOf node).map MapEntry.value

/-- `dslink_map_get`. -/
def dslinkMapGet (F : MapFunctions D) (map : Map D V) (key : D) : Option (Option V) :=
  map.dslinkMapGetl F key (F.keyLenCalc key)

/-- `dslink_map_entry_clear`. -/
def entryClear : Nat → Option Nat → Heap MapNode → Heap (MapEntry D V) →
    Option (Heap MapNode × Heap (MapEntry D V))
  | _, none, nodes, entries => some (nodes, entries)
  | 0, some _, _, _ => none
  | fuel + 1, some e, nodes, entries =>
    (entries.get e).bind fun entry => entryClear fuel entry.next (nodes.free entry.node) (entries.free e)

/-- `dslink_map_clear`. -/
def dslinkMapClear (map : Map D V) : Option (Map D V) :=
  if 0 < map.size then
    (entryClear (map.entries.next + 1) map.head.next map.nodes map.entries).map fun r =>
      { map with nodes := r.1, entries := r.2, head := ⟨none, none⟩, listSize := 0, table := fun _ => none, size := 0 }
  else some map

/-- The entries that `dslink_map_foreach` visits from one on. -/
def foreachLoop (entries : Heap (MapEntry D V)) : Nat → Option Nat → Option (List (D × Option V))
  | _, none => some []
  | 0, some _ => none
  | fuel + 1, some e =>
    (entries.get e).bind fun entry => (foreachLoop entries fuel entry.next).map fun rest => (entry.key, entry.value) :: rest

/-- `dslink_map_foreach`. -/
def dslinkMapForeach (map : Map D V) : Option (List (D × Option V)) :=
  foreachLoop map.entries (map.entries.next + 1) map.head.next

end Map

/-! ## Sequences of operations -/

/-- The operations. Each one without a length takes it from `key_len_calc`. -/
inductive Op (D V : Type)
  | set (key : D) (value : V)
  | get (key : D)
  | getl (key : D) (len : Nat)
  | contains (key : D)
  | containsl (key : D) (len : Nat)
  | remove (key : D)
  | removel (key : D) (len : Nat)
  | removeGet (key : D)
  | removelGet (key : D) (len : Nat)
  | clear
  | foreach
  | size

/-- What an operation gives. -/
inductive Out (κ V : Type)
  | done
  | value (value : Option V)
  | flag (b : Bool)
  | entries (entries : List (κ × Option V))
  | count (n : Nat)

section Run

variable {D V κ : Type} (F : MapFunctions D) (keyOf : D → Nat → κ)

/-- One operation on a map. -/
def Map.exec (map : Map D V) : Op D V → Option (Map D V × Out κ V)
  | .set key value => (map.dslinkMapSet F key value).map fun map => (map, .done)
  | .get key => (map.dslinkMapGet F key).map fun value => (map, .value value)
  | .getl key len => (map.dslinkMapGetl F key len).map fun value => (map, .value value)
  | .contains key => (map.dslinkMapContains F key).map fun b => (map, .flag b)
  | .containsl key len => (map.dslinkMapContainsl F key len).map fun b => (map, .flag b)
  | .remove key => (map.dslinkMapRemove F key).map fun map => (map, .done)
  | .removel key len => (map.dslinkMapRemovel F key len).map fun map => (map, .done)
  | .removeGet key => (map.dslinkMapRemoveGet F key).map fun r => (r.1, .value r.2)
  | .removelGet key len => (map.dslinkMapRemovelGet F key len).map fun r => (r.1, .value r.2)
  | .clear => map.dslinkMapClear.map fun map => (map, .done)
  | .foreach => map.dslinkMapForeach.map fun l =>
    (map, .entries (l.map fun e => (keyOf e.1 (F.keyLenCalc e.1), e.2)))
  | .size => some (map, .count map.size)

/-- The operations one after the other, with what they give. -/
def Map.run : Map D V → List (Op D V) → Option (Map D V × List (Out κ V))
  | map, [] => some (map, [])
  | map, op :: ops =>
    (map.exec F keyOf op).bind fun r => (Map.run r.1 ops).map fun r' => (r'.1, r.2 :: r'.2)

variable [DecidableEq κ]

/-- One operation on an association list in the order of insertion. -/
def spec (list : AssocMap κ V) : Op D V → AssocMap κ V × Out κ V
  | .set key value => (list.set (keyOf key (F.keyLenCalc key)) value, .done)
  | .get key => (list, .value (list.get (keyOf key (F.keyLenCalc key))))
  | .getl key len => (list, .value (list.get (keyOf key len)))
  | .contains key => (list, .flag (list.get (keyOf key (F.keyLenCalc key))).isSome)
  | .containsl key len => (list, .flag (list.get (keyOf key len)).isSome)
  | .remove key => (list.erase (keyOf key (F.keyLenCalc key)), .done)
  | .removel key len => (list.erase (keyOf key len), .done)
  | .removeGet key => (list.erase (keyOf key (F.keyLenCalc key)), .value (list.get (keyOf key (F.keyLenCalc key))))
  | .removelGet key len => (list.erase (keyOf key len), .value (list.get (keyOf key len)))
  | .clear => (.empty, .done)
  | .foreach => (list, .entries (list.entries.map fun e => (e.1, some e.2)))
  | .size => (list, .count list.size)

/-- The operations one after the other. -/
def specRun : AssocMap κ V → List (Op D V) → AssocMap κ V × List (Out κ V)
  | list, [] => (list, [])
  | list, op :: ops =>
    ((specRun (spec F keyOf list op).1 ops).1, (spec F keyOf list op).2 :: (specRun (spec F keyOf list op).1 ops).2)

end Run

end DSLink.Col
