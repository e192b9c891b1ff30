import DSLink.Lib.Circular
import DSLink.Lib.Heap
import DSLink.Lib.Run

/-!
# `Col.Lists` — the intrusive lists of `list.h`, `list.c` and `listener.c`

Nodes and lists lie in one memory. The head is the first field of a list and has its address, so a list is an address
whose `list` is the address itself. The functions write the pointers in the order of the source; a freed pointer that
is followed makes them give `none`.

## Contents

* `listInit` … `listenerDispatchRemoveAll` — the functions.
* `Lists.WellFormed` — what the traversals show.
* `Lists.Inv` — the same on the links, and `Inv.linkIn`, `Inv.linkOut`, `Inv.emptied`.
* `list_run_exact` — over runs.
-/

namespace DSLink.Col

/-- `ListNodeBase`. -/
structure ListNodeBase where
  prev : Option Nat
  next : Option Nat
  list : Option Nat

/-- The memory, with the `size` of each list. -/
structure Lists where
  cells : Heap ListNodeBase
  size : Nat → Nat

namespace Lists

/-- `node->next`. -/
def next (m : Lists) (node : Nat) : Option Nat := (m.cells.get node).bind fun x => x.next

/-- `node->prev`. -/
def prev (m : Lists) (node : Nat) : Option Nat := (m.cells.get node).bind fun x => x.prev

/-- `node->list`. -/
def listOf (m : Lists) (node : Nat) : Option Nat := (m.cells.get node).bind fun x => x.list

/-- An assignment to a field of `*p`. -/
def write (m : Lists) (p : Option Nat) (f : ListNodeBase → ListNodeBase) : Option Lists :=
  p.bind fun node => (m.cells.get node).map fun _ => { m with cells := m.cells.modify node f }

/-- An assignment to `list->size`. -/
def resize (m : Lists) (list : Option Nat) (f : Nat → Nat) : Option Lists :=
  list.bind fun list => (m.cells.get list).map fun _ => { m with size := Function.update m.size list (f (m.size list)) }

/-- `list_init`. -/
def listInit (m : Lists) (list : Nat) : Lists where
  cells := m.cells.put list ⟨some list, some list, some list⟩
  size := Function.update m.size list 0

/-- `list_insert_node_after`. -/
def listInsertNodeAfter (m : Lists) (node base : Option Nat) : Option Lists :=
  match node, base with
  | some node, some base => do
    let x ← m.cells.get base
    if x.list = none then some m
    else
      let m ← m.write (some node) fun y => { y with list := x.list }
      let m ← m.write (m.next base) fun y => { y with prev := some node }
      let m ← m.write (some node) fun y => { y with next := m.next base }
      let m ← m.write (some base) fun y => { y with next := some node }
      let m ← m.write (some node) fun y => { y with prev := some base }
      m.resize (m.listOf base) (· + 1)
  | _, _ => some m

/-- `list_insert_node_before`. -/
def listInsertNodeBefore (m : Lists) (node base : Option Nat) : Option Lists :=
  match node, base with
  | some node, some base => do
    let x ← m.cells.get base
    if x.list = none then some m
    else
      let m ← m.write (some node) fun y => { y with list := x.list }
      let m ← m.write (m.prev base) fun y => { y with next := some node }
      let m ← m.write (some node) fun y => { y with prev := m.prev base }
      let m ← m.write (some base) fun y => { y with prev := some node }
      let m ← m.write (some node) fun y => { y with next := some base }
      m.resize (m.listOf base) (· + 1)
  | _, _ => some m

/-- `list_insert_node`. -/
def listInsertNode (m : Lists) (list : Nat) (node : Option Nat) : Option Lists := m.listInsertNodeBefore node (some list)

/-- `dslink_malloc` of a node. What its fields have is never read. -/
def malloc (m : Lists) : Lists := { m with cells := m.cells.alloc ⟨none, none, none⟩ }

/-- `dslink_list_insert`, and the pointers of `listener_add`. -/
def dslinkListInsert (m : Lists) (list : Nat) : Option Lists := m.malloc.listInsertNode list (some m.cells.next)

/-- The neighbours of a node that leaves its list are linked to each other. -/
def unlink (m : Lists) (node : Nat) : Option Lists := do
  let m ← m.resize (m.listOf node) (· - 1)
  let m ← m.write (m.prev node) fun y => { y with next := m.next node }
  m.write (m.next node) fun y => { y with prev := m.prev node }

/-- `list_remove_node`. -/
def listRemoveNode (m : Lists) (node : Option Nat) : Option Lists :=
  match node with
  | some node => do
    let x ← m.cells.get node
    if x.list = none then some m
    else
      let m ← m.unlink node
      m.write (some node) fun y => { y with list := none }
  | none => some m

/-- `list_free_node`. -/
def listFreeNode (m : Lists) (node : Option Nat) : Option Lists :=
  match node with
  | some node => do
    let x ← m.cells.get node
    let m ← if x.list = none then some m else m.unlink node
    some { m with cells := m.cells.free node }
  | none => some m

/-- `node->list = NULL`. -/
def clearList (m : Lists) (node : Nat) : Lists :=
  { m with cells := m.cells.modify node fun y => { y with list := none } }

/-- `dslink_free`. -/
def free (m : Lists) (node : Nat) : Lists := { m with cells := m.cells.free node }

/-- A loop over the nodes of a list. `list_remove_all_nodes` reads `node->next` after its body, which leaves it. -/
def loop (m : Lists) (body : Lists → Nat → Lists) (list : Nat) : Option Lists :=
  drain next body list (m.cells.next + 1) (m.next list) m

/-- The head of an empty list. -/
def resetHead (m : Lists) (list : Nat) : Option Lists :=
  m.write (some list) fun y => { y with next := some list, prev := some list }

/-- `list_remove_all_nodes`. -/
def listRemoveAllNodes (m : Lists) (list : Nat) : Option Lists := do
  let m ← m.loop clearList list
  let m ← m.resetHead list
  m.resize (some list) fun _ => 0

/-- `dslink_list_free_all_nodes`. -/
def dslinkListFreeAllNodes (m : Lists) (list : Nat) : Option Lists := (m.loop free list).map fun m => m.listInit list

/-- A round of `listener_dispatch_remove_all`. The callback frees the listeners of `frees`. -/
def dispatchRemove (frees : Nat → Bool) (m : Lists) (listener : Nat) : Lists :=
  if frees listener then (m.clearList listener).free listener else m.clearList listener

/-- `listener_dispatch_remove_all`. -/
def listenerDispatchRemoveAll (m : Lists) (list : Nat) (frees : Nat → Bool) : Option Lists := do
  let m ← m.loop (dispatchRemove frees) list
  -- the size of the list is not reset
  m.resetHead list

/-- `list_is_empty`. -/
def listIsEmpty (m : Lists) (list : Nat) : Bool := m.next list = some list

/-! ## Runs -/

/-- One call. `newList` is a list in new memory, `newNode` a node that is in no list. -/
inductive Op
  | newList
  | newNode
  | insertAfter (node base : Option Nat)
  | insertBefore (node base : Option Nat)
  | insert (list : Nat) (node : Option Nat)
  | listInsert (list : Nat)
  | remove (node : Option Nat)
  | free (node : Option Nat)
  | removeAll (list : Nat)
  | freeAll (list : Nat)
  | dispatchRemoveAll (list : Nat) (frees : Nat → Bool)

/-- One call on the memory. -/
def step (m : Lists) : Op → Option Lists
  | .newList => some (m.malloc.listInit m.cells.next)
  | .newNode => some m.malloc
  | .insertAfter node base => m.listInsertNodeAfter node base
  | .insertBefore node base => m.listInsertNodeBefore node base
  | .insert list node => m.listInsertNode list node
  | .listInsert list => m.dslinkListInsert list
  | .remove node => m.listRemoveNode node
  | .free node => m.listFreeNode node
  | .removeAll list => m.listRemoveAllNodes list
  | .freeAll list => m.dslinkListFreeAllNodes list
  | .dispatchRemoveAll list frees => m.listenerDispatchRemoveAll list frees

/-- A list in the memory: its head points to it. -/
def IsList (m : Lists) (list : Nat) : Prop := m.listOf list = some list

/-- A node in the memory, and no list. -/
def IsNode (m : Lists) (node : Nat) : Prop := (m.cells.get node).isSome ∧ ¬m.IsList node

/-- The calls a program makes: with lists and nodes it has, and it inserts only nodes that are in no list. -/
def Allowed (m : Lists) : Op → Prop
  | .newList | .newNode => True
  | .insertAfter node base | .insertBefore node base =>
    (∀ n ∈ node, m.IsNode n ∧ m.listOf n = none) ∧ ∀ b ∈ base, (m.cells.get b).isSome
  | .insert list node => m.IsList list ∧ ∀ n ∈ node, m.IsNode n ∧ m.listOf n = none
  | .remove node | .free node => ∀ n ∈ node, m.IsNode n
  | .listInsert list | .removeAll list | .freeAll list | .dispatchRemoveAll list _ => m.IsList list

/-- The listeners that are removed all at once are none. -/
def Spared (m : Lists) : Op → Prop
  | .dispatchRemoveAll list _ => m.listIsEmpty list
  | _ => True

/-- The memories that are reached from an empty one. -/
def Reached (m : Lists) : Prop :=
  Reach step (fun m op => m.Allowed op ∧ m.Spared op) (· = ⟨.empty, fun _ => 0⟩) m

/-- `dslink_list_foreach`, and the same against the order. -/
def traverse (m : Lists) (link : Nat → Option Nat) (list : Nat) : Option (List Nat) :=
  walk link list (m.cells.next + 1) (link list)

/-- Forward and backward traversal visit the same nodes in opposite order, `size` is their number, and `node->list` is
    the list exactly for them. -/
def WellFormed (m : Lists) : Prop :=
  ∀ list, m.IsList list → ∃ nodes, m.traverse m.next list = some nodes ∧ m.traverse m.prev list = some nodes.reverse ∧
    m.size list = nodes.length ∧ ∀ n, m.listOf n = some list ↔ n = list ∨ n ∈ nodes

variable {m m' : Lists} {list n a b : Nat} {nodes l1 l2 : List Nat} {v : Option Nat}

/-! ## Assignments -/

/-- A cell that is rewritten. -/
def edit (m : Lists) (p : Nat) (f : ListNodeBase → ListNodeBase) : Lists := { m with cells := m.cells.modify p f }

theorem write_eq {p : Nat} {f : ListNodeBase → ListNodeBase} (h : (m.cells.get p).isSome) :
    m.write (some p) f = some (m.edit p f) := by
  obtain ⟨x, hx⟩ := Option.isSome_iff_exists.mp h
  rw [write, Option.bind_some, hx, Option.map_some]
  rfl

theorem resize_eq {f : Nat → Nat} (h : (m.cells.get list).isSome) :
    m.resize (some list) f = some { m with size := Function.update m.size list (f (m.size list)) } := by
  obtain ⟨x, hx⟩ := Option.isSome_iff_exists.mp h
  rw [resize, Option.bind_some, hx, Option.map_some]

@[simp] theorem isSome_edit (p : Nat) (f : ListNodeBase → ListNodeBase) (x : Nat) :
    ((m.edit p f).cells.get x).isSome = (m.cells.get x).isSome := by
  show ((m.cells.modify p f).get x).isSome = _
  rw [Heap.get_modify]
  split
  · rename_i hx
    rw [hx, Option.isSome_map]
  · rfl

@[simp] theorem size_edit (p : Nat) (f : ListNodeBase → ListNodeBase) : (m.edit p f).size = m.size := rfl

/-- A field that is read after a cell was rewritten. -/
theorem field_edit (field : ListNodeBase → Option Nat) (p : Nat) (f : ListNodeBase → ListNodeBase) (x : Nat) :
    ((m.edit p f).cells.get x).bind field =
      if x = p then (m.cells.get x).bind fun y => field (f y) else (m.cells.get x).bind field := by
  show ((m.cells.modify p f).get x).bind field = _
  rw [Heap.get_modify]
  split
  · rename_i hx
    rw [hx, Option.bind_map]
    rfl
  · rfl

theorem field_edit_of_eq (field : ListNodeBase → Option Nat) {p : Nat} {f : ListNodeBase → ListNodeBase} (x : Nat)
    (hf : ∀ y, field (f y) = field y) :
    ((m.edit p f).cells.get x).bind field = (m.cells.get x).bind field := by
  rw [field_edit]
  simp only [hf, ite_self]

theorem field_edit_set (field : ListNodeBase → Option Nat) {p : Nat} {f : ListNodeBase → ListNodeBase} (x : Nat)
    (h : (m.cells.get p).isSome) (hf : ∀ y, field (f y) = v) :
    ((m.edit p f).cells.get x).bind field = if x = p then v else (m.cells.get x).bind field := by
  rw [field_edit]
  split
  · rename_i hx
    obtain ⟨y, hy⟩ := Option.isSome_iff_exists.mp h
    rw [hx, hy, Option.bind_some, hf]
  · rfl

section Fields

variable {p : Nat} (x : Nat)

@[simp] theorem next_edit_prev : (m.edit p fun y => { y with prev := v }).next x = m.next x :=
  field_edit_of_eq (fun y => y.next) x fun _ => rfl

@[simp] theorem next_edit_list : (m.edit p fun y => { y with list := v }).next x = m.next x :=
  field_edit_of_eq (fun y => y.next) x fun _ => rfl

@[simp] theorem prev_edit_next : (m.edit p fun y => { y with next := v }).prev x = m.prev x :=
  field_edit_of_eq (fun y => y.prev) x fun _ => rfl

@[simp] theorem prev_edit_list : (m.edit p fun y => { y with list := v }).prev x = m.prev x :=
  field_edit_of_eq (fun y => y.prev) x fun _ => rfl

@[simp] theorem listOf_edit_next : (m.edit p fun y => { y with next := v }).listOf x = m.listOf x :=
  field_edit_of_eq (fun y => y.list) x fun _ => rfl

@[simp] theorem listOf_edit_prev : (m.edit p fun y => { y with prev := v }).listOf x = m.listOf x :=
  field_edit_of_eq (fun y => y.list) x fun _ => rfl

theorem next_edit (h : (m.cells.get p).isSome) :
    (m.edit p fun y => { y with next := v }).next x = if x = p then v else m.next x :=
  field_edit_set (fun y => y.next) x h fun _ => rfl

theorem prev_edit (h : (m.cells.get p).isSome) :
    (m.edit p fun y => { y with prev := v }).prev x = if x = p then v else m.prev x :=
  field_edit_set (fun y => y.prev) x h fun _ => rfl

theorem listOf_edit (h : (m.cells.get p).isSome) :
    (m.edit p fun y => { y with list := v }).listOf x = if x = p then v else m.listOf x :=
  field_edit_set (fun y => y.list) x h fun _ => rfl

theorem next_edit_head (h : (m.cells.get p).isSome) :
    (m.edit p fun y => { y with next := v, prev := v }).next x = if x = p then v else m.next x :=
  field_edit_set (fun y => y.next) x h fun _ => rfl

theorem prev_edit_head (h : (m.cells.get p).isSome) :
    (m.edit p fun y => { y with next := v, prev := v }).prev x = if x = p then v else m.prev x :=
  field_edit_set (fun y => y.prev) x h fun _ => rfl

theorem listOf_edit_head : (m.edit p fun y => { y with next := v, prev := v }).listOf x = m.listOf x :=
  field_edit_of_eq (fun y => y.list) x fun _ => rfl

end Fields

/-! ## The invariant -/

/-- What the memory has of a list. -/
structure ListAt (m : Lists) (list : Nat) (nodes : List Nat) : Prop where
  circular : Circular m.next m.prev list nodes
  size : m.size list = nodes.length
  members : ∀ n, m.listOf n = some list ↔ n = list ∨ n ∈ nodes

/-- Every list is well formed, and no node points to something else. -/
structure Inv (m : Lists) : Prop where
  lists : ∀ list, m.IsList list → ∃ nodes, m.ListAt list nodes
  owner : ∀ n list, m.listOf n = some list → m.IsList list

theorem isSome_of_next (h : m.next a = some b) : (m.cells.get a).isSome := by
  obtain ⟨x, hx, -⟩ := Option.bind_eq_some_iff.mp h
  rw [hx]
  rfl

theorem isSome_of_prev (h : m.prev a = some b) : (m.cells.get a).isSome := by
  obtain ⟨x, hx, -⟩ := Option.bind_eq_some_iff.mp h
  rw [hx]
  rfl

theorem isSome_of_listOf (h : m.listOf a = some b) : (m.cells.get a).isSome := by
  obtain ⟨x, hx, -⟩ := Option.bind_eq_some_iff.mp h
  rw [hx]
  rfl

theorem ListAt.length_le (h : m.ListAt list nodes) : nodes.length ≤ m.cells.next :=
  Heap.length_le_next (List.nodup_cons.mp h.circular.nodup).2 fun n hn =>
    isSome_of_listOf ((h.members n).mpr (Or.inr hn))

theorem ListAt.congr (h : m.ListAt list nodes) (hnext : ∀ x, m.listOf x = some list → m'.next x = m.next x)
    (hprev : ∀ x, m.listOf x = some list → m'.prev x = m.prev x)
    (hlist : ∀ x, m'.listOf x = some list ↔ m.listOf x = some list) (hsize : m'.size list = m.size list) :
    m'.ListAt list nodes where
  circular := h.circular.congr (fun x hx => hnext x ((h.members x).mpr (List.mem_cons.mp hx)))
    fun x hx => hprev x ((h.members x).mpr (List.mem_cons.mp hx))
  size := hsize.trans h.size
  members := fun n => (hlist n).trans (h.members n)

theorem Inv.wellFormed (h : m.Inv) : m.WellFormed := by
  intro list hl
  obtain ⟨nodes, hnodes⟩ := h.lists list hl
  have hfuel := hnodes.length_le
  refine ⟨nodes, hnodes.circular.walk (by omega), ?_, hnodes.size, hnodes.members⟩
  exact hnodes.circular.symm.walk (by rw [List.length_reverse]; omega)

/-- A node was linked in between two neighbours. -/
structure LinkedIn (m m' : Lists) (list n a b : Nat) : Prop where
  next : ∀ x, m'.next x = if x = n then some b else if x = a then some n else m.next x
  prev : ∀ x, m'.prev x = if x = n then some a else if x = b then some n else m.prev x
  listOf : ∀ x, m'.listOf x = if x = n then some list else m.listOf x
  size : m'.size = Function.update m.size list (m.size list + 1)

/-- A node was taken out. -/
structure LinkedOut (m m' : Lists) (list n a b : Nat) : Prop where
  next : ∀ x ≠ n, m'.next x = if x = a then some b else m.next x
  prev : ∀ x ≠ n, m'.prev x = if x = b then some a else m.prev x
  listOf : ∀ x, m'.listOf x = if x = n then none else m.listOf x
  size : m'.size = Function.update m.size list (m.size list - 1)

/-- All nodes were taken out. -/
structure Emptied (m m' : Lists) (list : Nat) (nodes : List Nat) : Prop where
  headNext : m'.next list = some list
  headPrev : m'.prev list = some list
  next : ∀ x, x ≠ list → x ∉ nodes → m'.next x = m.next x
  prev : ∀ x, x ≠ list → x ∉ nodes → m'.prev x = m.prev x
  listOf : ∀ x, m'.listOf x = if x ∈ nodes then none else m.listOf x
  size : ∀ l ≠ list, m'.size l = m.size l

theorem ListAt.mem_gap (h : m.ListAt list (l1 ++ l2)) (hgap : Gap list l1 l2 a b) :
    m.listOf a = some list ∧ m.listOf b = some list := by
  have ha := hgap.last_mem
  have hb := hgap.first_mem
  rw [h.members, h.members]
  simp only [List.mem_cons, List.mem_append, List.not_mem_nil, or_false] at ha hb ⊢
  tauto

/-- A change of one list, and of nodes that are in no list. -/
theorem Inv.replace (h : m.Inv) (hat : m'.ListAt list nodes)
    (hlist : ∀ x l, l ≠ list → (m'.listOf x = some l ↔ m.listOf x = some l))
    (hnext : ∀ x l, l ≠ list → m.listOf x = some l → m'.next x = m.next x)
    (hprev : ∀ x l, l ≠ list → m.listOf x = some l → m'.prev x = m.prev x)
    (hsize : ∀ l ≠ list, m'.size l = m.size l) : m'.Inv := by
  constructor
  · intro l hl
    by_cases hll : l = list
    · exact ⟨nodes, hll ▸ hat⟩
    · obtain ⟨others, hothers⟩ := h.lists l ((hlist l l hll).mp hl)
      exact ⟨others, hothers.congr (fun x => hnext x l hll) (fun x => hprev x l hll) (fun x => hlist x l hll) (hsize l hll)⟩
  · intro x l hx
    by_cases hll : l = list
    · rw [hll]
      exact (hat.members list).mpr (Or.inl rfl)
    · exact (hlist l l hll).mpr (h.owner x l ((hlist x l hll).mp hx))

theorem Inv.linkIn (h : m.Inv) (hat : m.ListAt list (l1 ++ l2)) (hgap : Gap list l1 l2 a b) (hn : m.listOf n = none)
    (hin : LinkedIn m m' list n a b) : m'.Inv := by
  obtain ⟨ha, hb⟩ := hat.mem_gap hgap
  have hne : ∀ x l, m.listOf x = some l → x ≠ n := by
    rintro x l hx rfl
    rw [hn] at hx
    cases hx
  have hat' : m'.ListAt list (l1 ++ n :: l2) := by
    refine ⟨hat.circular.insert hgap ?_ hin.next hin.prev, ?_, fun x => ?_⟩
    · rw [List.mem_cons, ← hat.members, hn]
      simp
    · rw [hin.size, Function.update_self, hat.size]
      simp [Nat.add_assoc]
    · have hx := hat.members x
      rw [hin.listOf]
      by_cases hxn : x = n
      · simp [hxn]
      · simp only [hxn, if_false, hx, List.mem_append, List.mem_cons, false_or]
  refine h.replace hat' (fun x l hll => ?_) (fun x l hll hx => ?_) (fun x l hll hx => ?_) fun l hll => ?_
  · rw [hin.listOf]
    split
    · rename_i hx
      rw [hx, hn]
      simp [Ne.symm hll]
    · rfl
  · have hxa : x ≠ a := by
      rintro rfl
      exact hll (Option.some.inj (hx.symm.trans ha))
    rw [hin.next, if_neg (hne x l hx), if_neg hxa]
  · have hxb : x ≠ b := by
      rintro rfl
      exact hll (Option.some.inj (hx.symm.trans hb))
    rw [hin.prev, if_neg (hne x l hx), if_neg hxb]
  · rw [hin.size, Function.update_of_ne hll]

theorem Inv.linkOut (h : m.Inv) (hat : m.ListAt list (l1 ++ n :: l2)) (hgap : Gap list l1 l2 a b)
    (hout : LinkedOut m m' list n a b) : m'.Inv := by
  have hmem : m.listOf a = some list ∧ m.listOf n = some list ∧ m.listOf b = some list := by
    have ha := hgap.last_mem
    have hb := hgap.first_mem
    rw [hat.members, hat.members, hat.members]
    simp only [List.mem_cons, List.mem_append, List.not_mem_nil, or_false] at ha hb ⊢
    tauto
  obtain ⟨ha, hn, hb⟩ := hmem
  have hother : ∀ x y l, l ≠ list → m.listOf x = some l → m.listOf y = some list → x ≠ y := by
    rintro x _ l hll hx hy rfl
    exact hll (Option.some.inj (hx.symm.trans hy))
  have hat' : m'.ListAt list (l1 ++ l2) := by
    refine ⟨hat.circular.remove hgap hout.next hout.prev, ?_, fun x => ?_⟩
    · rw [hout.size, Function.update_self, hat.size]
      simp
    · have hx := hat.members x
      rw [hout.listOf]
      by_cases hxn : x = n
      · obtain ⟨hhead, hnodup⟩ := List.nodup_cons.mp hat.circular.nodup
        have hnl : n ≠ list := fun he => hhead (by simp [he])
        have hnot : n ∉ l1 ++ l2 := (List.nodup_middle.mp hnodup).notMem
        simp only [hxn, if_true, hnl, false_or]
        simpa using hnot
      · simp only [hxn, if_false, hx, List.mem_append, List.mem_cons, false_or]
  refine h.replace hat' (fun x l hll => ?_) (fun x l hll hx => ?_) (fun x l hll hx => ?_) fun l hll => ?_
  · rw [hout.listOf]
    split
    · rename_i hx
      rw [hx, hn]
      simp [Ne.symm hll]
    · rfl
  · rw [hout.next x (hother x n l hll hx hn), if_neg (hother x a l hll hx ha)]
  · rw [hout.prev x (hother x n l hll hx hn), if_neg (hother x b l hll hx hb)]
  · rw [hout.size, Function.update_of_ne hll]

theorem Inv.emptied (h : m.Inv) (hat : m.ListAt list nodes) (hempty : Emptied m m' list nodes)
    (hsize : m'.size list = 0) : m'.Inv := by
  have hnot : list ∉ nodes := (List.nodup_cons.mp hat.circular.nodup).1
  have hat' : m'.ListAt list [] := by
    refine ⟨.unlinked hempty.headNext hempty.headPrev, hsize, fun x => ?_⟩
    have hx := hat.members x
    rw [hempty.listOf]
    by_cases hxn : x ∈ nodes
    · have hxl : x ≠ list := by
        rintro rfl
        exact hnot hxn
      simp [hxn, hxl]
    · simpa [hxn] using hx
  have hother : ∀ x l, l ≠ list → m.listOf x = some l → x ≠ list ∧ x ∉ nodes := by
    intro x l hll hx
    have hno : ¬(x = list ∨ x ∈ nodes) := by
      rw [← hat.members, hx]
      simpa using hll
    exact not_or.mp hno
  refine h.replace hat' (fun x l hll => ?_) (fun x l hll hx => ?_) (fun x l hll hx => ?_) hempty.size
  · rw [hempty.listOf]
    split
    · rename_i hx
      rw [(hat.members x).mpr (Or.inr hx)]
      simp [Ne.symm hll]
    · rfl
  · exact hempty.next x (hother x l hll hx).1 (hother x l hll hx).2
  · exact hempty.prev x (hother x l hll hx).1 (hother x l hll hx).2

/-! ## The calls -/

theorem isSome_malloc (h : (m.cells.get a).isSome) : (m.malloc.cells.get a).isSome := by
  obtain ⟨x, hx⟩ := Option.isSome_iff_exists.mp h
  show ((m.cells.alloc _).get a).isSome
  rw [Heap.get_alloc_of_get hx]
  rfl

/-- A field of a node after an allocation. -/
theorem field_malloc (field : ListNodeBase → Option Nat) (x : Nat) (hfield : field ⟨none, none, none⟩ = none) :
    (m.malloc.cells.get x).bind field = (m.cells.get x).bind field := by
  show ((m.cells.alloc _).get x).bind field = _
  rw [Heap.get_alloc]
  split
  · rename_i hx
    rw [hx, Heap.get_next, Option.bind_some, hfield, Option.bind_none]
  · rfl

@[simp] theorem next_malloc (x : Nat) : m.malloc.next x = m.next x := field_malloc (fun y => y.next) x rfl

@[simp] theorem prev_malloc (x : Nat) : m.malloc.prev x = m.prev x := field_malloc (fun y => y.prev) x rfl

@[simp] theorem listOf_malloc (x : Nat) : m.malloc.listOf x = m.listOf x := field_malloc (fun y => y.list) x rfl

theorem Inv.malloc (h : m.Inv) : m.malloc.Inv := by
  constructor
  · intro l hl
    obtain ⟨nodes, hnodes⟩ := h.lists l ((listOf_malloc l).symm.trans hl)
    exact ⟨nodes, hnodes.congr (fun x _ => next_malloc x) (fun x _ => prev_malloc x) (fun x => by rw [listOf_malloc]) rfl⟩
  · intro x l hx
    exact (listOf_malloc l).trans (h.owner x l ((listOf_malloc x).symm.trans hx))

/-- A field after `list_init`. -/
theorem field_listInit (field : ListNodeBase → Option Nat) (x : Nat) (h : (m.cells.get list).isSome) :
    ((m.listInit list).cells.get x).bind field =
      if x = list then field ⟨some list, some list, some list⟩ else (m.cells.get x).bind field := by
  obtain ⟨y, hy⟩ := Option.isSome_iff_exists.mp h
  show ((m.cells.put list _).get x).bind field = _
  rw [Heap.get_put]
  split
  · rw [hy]
    rfl
  · rfl

theorem Inv.newList (h : m.Inv) : (m.malloc.listInit m.cells.next).Inv := by
  have hlive : (m.malloc.cells.get m.cells.next).isSome := by
    show ((m.cells.alloc _).get m.cells.next).isSome
    rw [Heap.get_alloc_next]
    rfl
  have hnext : ∀ x, (m.malloc.listInit m.cells.next).next x = if x = m.cells.next then some m.cells.next else m.next x :=
    fun x => (field_listInit (fun y => y.next) x hlive).trans (congrArg (ite _ _) (next_malloc x))
  have hprev : ∀ x, (m.malloc.listInit m.cells.next).prev x = if x = m.cells.next then some m.cells.next else m.prev x :=
    fun x => (field_listInit (fun y => y.prev) x hlive).trans (congrArg (ite _ _) (prev_malloc x))
  have hlist : ∀ x, (m.malloc.listInit m.cells.next).listOf x =
      if x = m.cells.next then some m.cells.next else m.listOf x :=
    fun x => (field_listInit (fun y => y.list) x hlive).trans (congrArg (ite _ _) (listOf_malloc x))
  have hfresh : m.listOf m.cells.next = none := by rw [Lists.listOf, Heap.get_next, Option.bind_none]
  have hne : ∀ x l, m.listOf x = some l → x ≠ m.cells.next := by
    rintro x l hx rfl
    rw [hfresh] at hx
    cases hx
  have hat : (m.malloc.listInit m.cells.next).ListAt m.cells.next [] := by
    refine ⟨.unlinked (by rw [hnext, if_pos rfl]) (by rw [hprev, if_pos rfl]), Function.update_self .., fun x => ?_⟩
    rw [hlist]
    split
    · simp [*]
    · rename_i hx
      have hnew : m.listOf x ≠ some m.cells.next := fun he => by
        rw [show m.listOf m.cells.next = some m.cells.next from h.owner x _ he] at hfresh
        cases hfresh
      simp [hx, hnew]
  refine h.replace hat (fun x l hll => ?_) (fun x l _ hx => ?_) (fun x l _ hx => ?_) fun l hll => ?_
  · rw [hlist]
    split
    · rename_i hx
      simp [hx, hfresh, Ne.symm hll]
    · rfl
  · rw [hnext, if_neg (hne x l hx)]
  · rw [hprev, if_neg (hne x l hx)]
  · exact Function.update_of_ne hll ..

section

variable (x : Nat) (f : Nat → Nat)

@[simp] theorem next_resize : ({ m with size := f } : Lists).next x = m.next x := rfl

@[simp] theorem prev_resize : ({ m with size := f } : Lists).prev x = m.prev x := rfl

@[simp] theorem listOf_resize : ({ m with size := f } : Lists).listOf x = m.listOf x := rfl

end

theorem insertAfter_eq (hbase : m.listOf a = some list) (hnext : m.next a = some b) (hb : (m.cells.get b).isSome)
    (hl : (m.cells.get list).isSome) (hn : (m.cells.get n).isSome) (hna : a ≠ n) :
    ∃ m', m.listInsertNodeAfter (some n) (some a) = some m' ∧ LinkedIn m m' list n a b := by
  have ha := isSome_of_next hnext
  obtain ⟨x, hx, hxl⟩ := Option.bind_eq_some_iff.mp hbase
  have hrun : m.listInsertNodeAfter (some n) (some a) = some { ((((m.edit n fun y => { y with list := some list }).edit b
      fun y => { y with prev := some n }).edit n fun y => { y with next := some b }).edit a
      fun y => { y with next := some n }).edit n fun y => { y with prev := some a } with
      size := Function.update m.size list (m.size list + 1) } := by
    simp [listInsertNodeAfter, hx, hxl, write_eq, resize_eq, hnext, hn, hb, hl, listOf_edit, hna, hbase]
  refine ⟨_, hrun, fun y => ?_, fun y => ?_, fun y => ?_, rfl⟩
  · simp only [next_resize, next_edit_prev, next_edit_list, next_edit, isSome_edit, hn, ha]
    split
    · simp [*]
    · simp [*]
  · simp [prev_edit, hn, hb]
  · simp [listOf_edit, hn]

theorem insertBefore_eq (hbase : m.listOf b = some list) (hprev : m.prev b = some a) (ha : (m.cells.get a).isSome)
    (hl : (m.cells.get list).isSome) (hn : (m.cells.get n).isSome) (hnb : b ≠ n) :
    ∃ m', m.listInsertNodeBefore (some n) (some b) = some m' ∧ LinkedIn m m' list n a b := by
  have hb := isSome_of_listOf hbase
  obtain ⟨x, hx, hxl⟩ := Option.bind_eq_some_iff.mp hbase
  have hrun : m.listInsertNodeBefore (some n) (some b) = some { ((((m.edit n fun y => { y with list := some list }).edit a
      fun y => { y with next := some n }).edit n fun y => { y with prev := some a }).edit b
      fun y => { y with prev := some n }).edit n fun y => { y with next := some b } with
      size := Function.update m.size list (m.size list + 1) } := by
    simp [listInsertNodeBefore, hx, hxl, write_eq, resize_eq, hprev, hn, ha, hl, listOf_edit, hnb, hbase]
  refine ⟨_, hrun, fun y => ?_, fun y => ?_, fun y => ?_, rfl⟩
  · simp [next_edit, hn, ha]
  · simp only [prev_resize, prev_edit_next, prev_edit_list, prev_edit, isSome_edit, hn, hb]
    split
    · simp [*]
    · simp [*]
  · simp [listOf_edit, hn]

theorem unlink_eq (hlist : m.listOf n = some list) (hprev : m.prev n = some a) (hnext : m.next n = some b)
    (ha : (m.cells.get a).isSome) (hb : (m.cells.get b).isSome) (hl : (m.cells.get list).isSome) (hna : n ≠ a) :
    m.unlink n = some ((Lists.edit { m with size := Function.update m.size list (m.size list - 1) } a
      fun y => { y with next := some b }).edit b fun y => { y with prev := some a }) := by
  simp [unlink, hlist, resize_eq, write_eq, next_edit, ha, hb, hl, hprev, hnext, hna]

theorem remove_eq (hlist : m.listOf n = some list) (hprev : m.prev n = some a) (hnext : m.next n = some b)
    (ha : (m.cells.get a).isSome) (hb : (m.cells.get b).isSome) (hl : (m.cells.get list).isSome) (hna : n ≠ a) :
    ∃ m', m.listRemoveNode (some n) = some m' ∧ LinkedOut m m' list n a b := by
  obtain ⟨x, hx, hxl⟩ := Option.bind_eq_some_iff.mp hlist
  have hrun := unlink_eq hlist hprev hnext ha hb hl hna
  have hremove : m.listRemoveNode (some n) = some (((Lists.edit { m with
      size := Function.update m.size list (m.size list - 1) } a fun y => { y with next := some b }).edit b
      fun y => { y with prev := some a }).edit n fun y => { y with list := none }) := by
    simp [listRemoveNode, hx, hxl, hrun, write_eq]
  refine ⟨_, hremove, fun y _ => ?_, fun y _ => ?_, fun y => ?_, rfl⟩
  · simp [next_edit, ha]
  · simp [prev_edit, hb]
  · simp [listOf_edit, hx]

/-- A field after a free. -/
theorem field_free (field : ListNodeBase → Option Nat) (x : Nat) :
    ((m.free n).cells.get x).bind field = if x = n then none else (m.cells.get x).bind field := by
  show ((m.cells.free n).get x).bind field = _
  rw [Heap.get_free]
  split <;> rfl

theorem next_free (x : Nat) : (m.free n).next x = if x = n then none else m.next x := field_free (fun y => y.next) x

theorem prev_free (x : Nat) : (m.free n).prev x = if x = n then none else m.prev x := field_free (fun y => y.prev) x

theorem listOf_free (x : Nat) : (m.free n).listOf x = if x = n then none else m.listOf x :=
  field_free (fun y => y.list) x

theorem free_eq (hlist : m.listOf n = some list) (hprev : m.prev n = some a) (hnext : m.next n = some b)
    (ha : (m.cells.get a).isSome) (hb : (m.cells.get b).isSome) (hl : (m.cells.get list).isSome) (hna : n ≠ a) :
    ∃ m', m.listFreeNode (some n) = some m' ∧ LinkedOut m m' list n a b := by
  obtain ⟨x, hx, hxl⟩ := Option.bind_eq_some_iff.mp hlist
  have hrun := unlink_eq hlist hprev hnext ha hb hl hna
  have hfree : m.listFreeNode (some n) = some (((Lists.edit { m with
      size := Function.update m.size list (m.size list - 1) } a fun y => { y with next := some b }).edit b
      fun y => { y with prev := some a }).free n) := by
    simp [listFreeNode, hx, hxl, hrun]
    rfl
  refine ⟨_, hfree, fun y hy => ?_, fun y hy => ?_, fun y => ?_, rfl⟩
  · simp [next_free, next_edit, ha, hy]
  · simp [prev_free, prev_edit, hb, hy]
  · simp [listOf_free]

/-! ## The loops -/

/-- A round that rewrites or frees its node, and the whole loop. -/
structure Round (body : Lists → Nat → Lists) (g : Nat → ListNodeBase → Option ListNodeBase) : Prop where
  get : ∀ m n x, (body m n).cells.get x = if x = n then (m.cells.get n).bind (g n) else m.cells.get x
  size : ∀ m n, (body m n).size = m.size

theorem Round.foldl_get {body : Lists → Nat → Lists} {g : Nat → ListNodeBase → Option ListNodeBase} (hr : Round body g)
    (hnodup : nodes.Nodup) (x : Nat) :
    (nodes.foldl body m).cells.get x = if x ∈ nodes then (m.cells.get x).bind (g x) else m.cells.get x := by
  induction nodes generalizing m with
  | nil => simp
  | cons n nodes ih =>
    obtain ⟨hn, hnodup⟩ := List.nodup_cons.mp hnodup
    rw [List.foldl_cons, ih hnodup, hr.get]
    by_cases hx : x = n
    · simp [hx, hn]
    · simp [hx]

theorem Round.foldl_size {body : Lists → Nat → Lists} {g : Nat → ListNodeBase → Option ListNodeBase} (hr : Round body g) :
    (nodes.foldl body m).size = m.size := by
  induction nodes generalizing m with
  | nil => rfl
  | cons n nodes ih => rw [List.foldl_cons, ih, hr.size]

theorem Round.loop {body : Lists → Nat → Lists} {g : Nat → ListNodeBase → Option ListNodeBase} (hr : Round body g)
    (hat : m.ListAt list nodes) : m.loop body list = some (nodes.foldl body m) := by
  have hbody : ∀ (s : Lists) (n x : Nat), x ≠ n → (body s n).next x = s.next x := by
    intro s n x hx
    rw [Lists.next, hr.get, if_neg hx]
    rfl
  exact hat.circular.drain hbody (Nat.lt_succ_of_le hat.length_le)

theorem round_clear : Round clearList fun _ y => some { y with list := none } where
  get := by
    intro m n x
    show (m.cells.modify n _).get x = _
    rw [Heap.get_modify, Option.map_eq_bind]
    rfl
  size := fun _ _ => rfl

theorem round_free : Round free fun _ _ => none where
  get := by
    intro m n x
    show (m.cells.free n).get x = _
    rw [Heap.get_free, Option.bind_fun_none]
  size := fun _ _ => rfl

theorem round_dispatch (frees : Nat → Bool) :
    Round (dispatchRemove frees) fun n y => if frees n then none else some { y with list := none } where
  get := by
    intro m n x
    unfold dispatchRemove
    split
    · rw [round_free.get, round_clear.get]
      by_cases hx : x = n
      · simp [hx]
      · simp [hx, round_clear.get]
    · exact round_clear.get m n x
  size := by
    intro m n
    unfold dispatchRemove
    split <;> rfl

section Emptied

variable {body : Lists → Nat → Lists} {g : Nat → ListNodeBase → Option ListNodeBase}

/-- A field after the loop. -/
theorem Round.field_foldl (hr : Round body g) (hat : m.ListAt list nodes) (field : ListNodeBase → Option Nat) (x : Nat) :
    ((nodes.foldl body m).cells.get x).bind field =
      if x ∈ nodes then (m.cells.get x).bind fun y => (g x y).bind field else (m.cells.get x).bind field := by
  rw [hr.foldl_get (List.nodup_cons.mp hat.circular.nodup).2]
  split
  · rw [Option.bind_assoc]
  · rfl

theorem Round.listOf_foldl (hr : Round body g) (hg : ∀ n y, ((g n y).bind fun z => z.list) = none)
    (hat : m.ListAt list nodes) (x : Nat) : (nodes.foldl body m).listOf x = if x ∈ nodes then none else m.listOf x := by
  refine (hr.field_foldl hat (fun z => z.list) x).trans ?_
  simp only [hg, Option.bind_fun_none]
  rfl

theorem Round.next_foldl (hr : Round body g) (hat : m.ListAt list nodes) {x : Nat} (hx : x ∉ nodes) :
    (nodes.foldl body m).next x = m.next x := (hr.field_foldl hat (fun z => z.next) x).trans (if_neg hx)

theorem Round.prev_foldl (hr : Round body g) (hat : m.ListAt list nodes) {x : Nat} (hx : x ∉ nodes) :
    (nodes.foldl body m).prev x = m.prev x := (hr.field_foldl hat (fun z => z.prev) x).trans (if_neg hx)

theorem ListAt.head_notMem (h : m.ListAt list nodes) : list ∉ nodes := (List.nodup_cons.mp h.circular.nodup).1

theorem ListAt.isSome_head (h : m.ListAt list nodes) : (m.cells.get list).isSome :=
  isSome_of_listOf ((h.members list).mpr (Or.inl rfl))

theorem Round.isSome_foldl (hr : Round body g) (hat : m.ListAt list nodes) :
    ((nodes.foldl body m).cells.get list).isSome := by
  rw [hr.foldl_get (List.nodup_cons.mp hat.circular.nodup).2, if_neg hat.head_notMem]
  exact hat.isSome_head

/-- The loop, with the head made empty. -/
theorem Round.resetHead (hr : Round body g) (hg : ∀ n y, ((g n y).bind fun z => z.list) = none)
    (hat : m.ListAt list nodes) : ∃ m', (nodes.foldl body m).resetHead list = some m' ∧ Emptied m m' list nodes ∧
      (m'.cells.get list).isSome ∧ m'.size = m.size := by
  have hlive := hr.isSome_foldl hat
  refine ⟨_, write_eq hlive, ⟨?_, ?_, fun x hxl hx => ?_, fun x hxl hx => ?_, fun x => ?_, fun l _ => ?_⟩, ?_, ?_⟩
  · rw [next_edit_head list hlive, if_pos rfl]
  · rw [prev_edit_head list hlive, if_pos rfl]
  · rw [next_edit_head x hlive, if_neg hxl, hr.next_foldl hat hx]
  · rw [prev_edit_head x hlive, if_neg hxl, hr.prev_foldl hat hx]
  · rw [listOf_edit_head, hr.listOf_foldl hg hat x]
  · exact congrFun hr.foldl_size l
  · rw [isSome_edit]
    exact hlive
  · exact hr.foldl_size

end Emptied

/-- A node that is in no list is freed. -/
theorem Inv.freed (h : m.Inv) (hn : m.listOf n = none) : (m.free n).Inv := by
  have hne : ∀ x l, m.listOf x = some l → x ≠ n := by
    rintro x l hx rfl
    rw [hn] at hx
    cases hx
  have hlist : ∀ x, (m.free n).listOf x = m.listOf x := by
    intro x
    rw [listOf_free]
    split
    · rename_i hx
      rw [hx, hn]
    · rfl
  constructor
  · intro l hl
    obtain ⟨nodes, hnodes⟩ := h.lists l ((hlist l).symm.trans hl)
    refine ⟨nodes, hnodes.congr (fun x hx => ?_) (fun x hx => ?_) (fun x => by rw [hlist]) rfl⟩
    · rw [next_free, if_neg (hne x l hx)]
    · rw [prev_free, if_neg (hne x l hx)]
  · intro x l hx
    exact (hlist l).trans (h.owner x l ((hlist x).symm.trans hx))

theorem Inv.listAt (h : m.Inv) (hn : m.listOf n = some list) : ∃ nodes, m.ListAt list nodes ∧ n ∈ list :: nodes := by
  obtain ⟨nodes, hat⟩ := h.lists list (h.owner n list hn)
  exact ⟨nodes, hat, List.mem_cons.mpr ((hat.members n).mp hn)⟩

theorem Inv.insertAfter (h : m.Inv) {node base : Option Nat} (hnode : ∀ n ∈ node, m.IsNode n ∧ m.listOf n = none)
    (hbase : ∀ b ∈ base, (m.cells.get b).isSome) : ∃ m', m.listInsertNodeAfter node base = some m' ∧ m'.Inv := by
  match node, base with
  | none, _ => exact ⟨m, rfl, h⟩
  | some _, none => exact ⟨m, rfl, h⟩
  | some n, some a =>
    obtain ⟨⟨hn, -⟩, hfree⟩ := hnode n rfl
    obtain ⟨x, hx⟩ := Option.isSome_iff_exists.mp (hbase a rfl)
    cases hl : m.listOf a with
    | none =>
      have hnull : x.list = none := by simpa [listOf, hx] using hl
      exact ⟨m, by simp [listInsertNodeAfter, hx, hnull], h⟩
    | some list =>
      obtain ⟨nodes, hat, hmem⟩ := h.listAt hl
      obtain ⟨l1, l2, b, rfl, hgap⟩ := Gap.after hmem
      have hna : a ≠ n := by
        rintro rfl
        rw [hfree] at hl
        cases hl
      obtain ⟨m', hrun, hin⟩ := insertAfter_eq hl (hat.circular.adjacent hgap).1
        (isSome_of_listOf (hat.mem_gap hgap).2) hat.isSome_head hn hna
      exact ⟨m', hrun, h.linkIn hat hgap hfree hin⟩

theorem Inv.insertBefore (h : m.Inv) {node base : Option Nat} (hnode : ∀ n ∈ node, m.IsNode n ∧ m.listOf n = none)
    (hbase : ∀ b ∈ base, (m.cells.get b).isSome) : ∃ m', m.listInsertNodeBefore node base = some m' ∧ m'.Inv := by
  match node, base with
  | none, _ => exact ⟨m, rfl, h⟩
  | some _, none => exact ⟨m, rfl, h⟩
  | some n, some b =>
    obtain ⟨⟨hn, -⟩, hfree⟩ := hnode n rfl
    obtain ⟨x, hx⟩ := Option.isSome_iff_exists.mp (hbase b rfl)
    cases hl : m.listOf b with
    | none =>
      have hnull : x.list = none := by simpa [listOf, hx] using hl
      exact ⟨m, by simp [listInsertNodeBefore, hx, hnull], h⟩
    | some list =>
      obtain ⟨nodes, hat, hmem⟩ := h.listAt hl
      obtain ⟨l1, l2, a, rfl, hgap⟩ := Gap.before hmem
      have hnb : b ≠ n := by
        rintro rfl
        rw [hfree] at hl
        cases hl
      obtain ⟨m', hrun, hin⟩ := insertBefore_eq hl (hat.circular.adjacent hgap).2
        (isSome_of_listOf (hat.mem_gap hgap).1) hat.isSome_head hn hnb
      exact ⟨m', hrun, h.linkIn hat hgap hfree hin⟩

/-- The neighbours of a node in a list. -/
theorem Inv.neighbours (h : m.Inv) (hn : m.listOf n = some list) (hnode : m.IsNode n) :
    ∃ l1 l2 a b, m.ListAt list (l1 ++ n :: l2) ∧ Gap list l1 l2 a b ∧ Adjacent m.next m.prev a n ∧
      Adjacent m.next m.prev n b ∧ n ≠ a := by
  obtain ⟨nodes, hat, hmem⟩ := h.listAt hn
  have hne : n ≠ list := by
    rintro rfl
    exact hnode.2 hn
  obtain ⟨l1, l2, rfl⟩ := List.append_of_mem ((List.mem_cons.mp hmem).resolve_left hne)
  obtain ⟨a, b, hgap⟩ := Gap.between list l1 l2
  have hprev : Adjacent m.next m.prev a n := hat.circular.adjacent ⟨hgap.last, rfl⟩
  have hbehind : m.ListAt list ((l1 ++ [n]) ++ l2) := by simpa using hat
  have hnext : Adjacent m.next m.prev n b :=
    hbehind.circular.adjacent ⟨by rw [← List.cons_append, List.getLast?_concat], hgap.first⟩
  refine ⟨l1, l2, a, b, hat, hgap, hprev, hnext, ?_⟩
  rintro rfl
  rcases List.mem_cons.mp hgap.last_mem with he | hl1
  · exact hne he
  · have hnodup := (List.nodup_cons.mp hat.circular.nodup).2
    exact (List.nodup_middle.mp hnodup).notMem (List.mem_append_left _ hl1)

theorem Inv.remove (h : m.Inv) {node : Option Nat} (hnode : ∀ n ∈ node, m.IsNode n) :
    ∃ m', m.listRemoveNode node = some m' ∧ m'.Inv := by
  cases node with
  | none => exact ⟨m, rfl, h⟩
  | some n =>
    have hn := hnode n rfl
    cases hl : m.listOf n with
    | none =>
      obtain ⟨x, hx⟩ := Option.isSome_iff_exists.mp hn.1
      have hnull : x.list = none := by simpa [listOf, hx] using hl
      exact ⟨m, by simp [listRemoveNode, hx, hnull], h⟩
    | some list =>
      obtain ⟨l1, l2, a, b, hat, hgap, han, hnb, hna⟩ := h.neighbours hl hn
      obtain ⟨m', hrun, hout⟩ := remove_eq hl han.2 hnb.1 (isSome_of_next han.1) (isSome_of_prev hnb.2) hat.isSome_head hna
      exact ⟨m', hrun, h.linkOut hat hgap hout⟩

theorem Inv.free (h : m.Inv) {node : Option Nat} (hnode : ∀ n ∈ node, m.IsNode n) :
    ∃ m', m.listFreeNode node = some m' ∧ m'.Inv := by
  cases node with
  | none => exact ⟨m, rfl, h⟩
  | some n =>
    have hn := hnode n rfl
    cases hl : m.listOf n with
    | none =>
      obtain ⟨x, hx⟩ := Option.isSome_iff_exists.mp hn.1
      have hnull : x.list = none := by simpa [listOf, hx] using hl
      refine ⟨m.free n, by simp [listFreeNode, hx, hnull]; rfl, ?_⟩
      exact h.freed hl
    | some list =>
      obtain ⟨l1, l2, a, b, hat, hgap, han, hnb, hna⟩ := h.neighbours hl hn
      obtain ⟨m', hrun, hout⟩ := free_eq hl han.2 hnb.1 (isSome_of_next han.1) (isSome_of_prev hnb.2) hat.isSome_head hna
      exact ⟨m', hrun, h.linkOut hat hgap hout⟩

theorem Inv.removeAll (h : m.Inv) (hat : m.ListAt list nodes) : ∃ m', m.listRemoveAllNodes list = some m' ∧ m'.Inv := by
  obtain ⟨m1, hreset, hempty, hlive, hsize⟩ := round_clear.resetHead (fun _ _ => rfl) hat
  have hrun : m.listRemoveAllNodes list = some { m1 with size := Function.update m1.size list 0 } := by
    simp [listRemoveAllNodes, round_clear.loop hat, hreset, resize_eq hlive]
  refine ⟨_, hrun, h.emptied hat ⟨hempty.headNext, hempty.headPrev, hempty.next, hempty.prev, hempty.listOf, fun l hl => ?_⟩
    (Function.update_self ..)⟩
  exact (Function.update_of_ne hl ..).trans (congrFun hsize l)

theorem Inv.freeAll (h : m.Inv) (hat : m.ListAt list nodes) : ∃ m', m.dslinkListFreeAllNodes list = some m' ∧ m'.Inv := by
  have hlive := round_free.isSome_foldl hat
  have hrun : m.dslinkListFreeAllNodes list = some ((nodes.foldl Lists.free m).listInit list) := by
    rw [dslinkListFreeAllNodes, round_free.loop hat, Option.map_some]
  refine ⟨_, hrun, h.emptied hat ⟨?_, ?_, fun x hxl hx => ?_, fun x hxl hx => ?_, fun x => ?_, fun l hl => ?_⟩
    (Function.update_self ..)⟩
  · exact (field_listInit (fun y => y.next) list hlive).trans (if_pos rfl)
  · exact (field_listInit (fun y => y.prev) list hlive).trans (if_pos rfl)
  · exact ((field_listInit (fun y => y.next) x hlive).trans (if_neg hxl)).trans (round_free.next_foldl hat hx)
  · exact ((field_listInit (fun y => y.prev) x hlive).trans (if_neg hxl)).trans (round_free.prev_foldl hat hx)
  · refine (field_listInit (fun y => y.list) x hlive).trans ?_
    split
    · rename_i hxl
      rw [hxl, if_neg hat.head_notMem]
      exact ((hat.members list).mpr (Or.inl rfl)).symm
    · exact round_free.listOf_foldl (fun _ _ => rfl) hat x
  · exact (Function.update_of_ne hl ..).trans (congrFun round_free.foldl_size l)

/-- `listener_dispatch_remove_all` empties the list, and leaves its size. -/
theorem ListAt.dispatchRemoveAll (hat : m.ListAt list nodes) (frees : Nat → Bool) :
    ∃ m', m.listenerDispatchRemoveAll list frees = some m' ∧ Emptied m m' list nodes ∧ m'.size = m.size := by
  have hg : ∀ n (y : ListNodeBase), ((if frees n then none else some { y with list := none }).bind fun z => z.list) =
      (none : Option Nat) := by
    intro n y
    split <;> rfl
  obtain ⟨m', hreset, hempty, -, hsize⟩ := (round_dispatch frees).resetHead hg hat
  refine ⟨m', ?_, hempty, hsize⟩
  simp [listenerDispatchRemoveAll, (round_dispatch frees).loop hat, hreset]

/-- The listeners of an empty list: there are none. -/
theorem ListAt.listIsEmpty_iff (hat : m.ListAt list nodes) : m.listIsEmpty list ↔ nodes = [] := by
  have hfirst : m.next list = (nodes ++ [list]).head? := by
    cases nodes <;> exact ((List.isChain_cons.mp hat.circular.chain).1 _ rfl).1
  rw [listIsEmpty, decide_eq_true_iff, hfirst]
  cases nodes with
  | nil => simp
  | cons n nodes =>
    have hne : n ≠ list := fun he => hat.head_notMem (he ▸ List.mem_cons_self)
    simp [hne]

/-- After `listener_dispatch_remove_all` the memory is well formed only if the list was empty. -/
theorem ListAt.wellFormed_dispatched (hat : m.ListAt list nodes) (hempty : Emptied m m' list nodes)
    (hsize : m'.size = m.size) (hw : m'.WellFormed) : nodes = [] := by
  have hlist : m'.IsList list := by
    rw [IsList, hempty.listOf, if_neg hat.head_notMem]
    exact (hat.members list).mpr (Or.inl rfl)
  obtain ⟨visited, hforward, -, hvisited, -⟩ := hw list hlist
  rw [traverse, hempty.headNext, walk, if_pos rfl] at hforward
  obtain rfl := Option.some.inj hforward
  rw [hsize, hat.size] at hvisited
  exact List.length_eq_zero_iff.mp hvisited

/-- **One call.** It does not fail, and it keeps the invariant exactly if it is spared. -/
theorem Inv.step (h : m.Inv) {op : Op} (hop : m.Allowed op) :
    ∃ m', m.step op = some m' ∧ (m.Spared op → m'.Inv) ∧ (m'.WellFormed → m.Spared op) := by
  have hdone : (∃ m', m.step op = some m' ∧ m'.Inv) → m.Spared op →
      ∃ m', m.step op = some m' ∧ (m.Spared op → m'.Inv) ∧ (m'.WellFormed → m.Spared op) := by
    rintro ⟨m', hrun, h'⟩ hspared
    exact ⟨m', hrun, fun _ => h', fun _ => hspared⟩
  cases op with
  | newList => exact hdone ⟨_, rfl, h.newList⟩ trivial
  | newNode => exact hdone ⟨_, rfl, h.malloc⟩ trivial
  | insertAfter node base => exact hdone (h.insertAfter hop.1 hop.2) trivial
  | insertBefore node base => exact hdone (h.insertBefore hop.1 hop.2) trivial
  | insert list node =>
    refine hdone (h.insertBefore hop.2 ?_) trivial
    rintro b hb
    obtain rfl := Option.some.inj hb
    exact isSome_of_listOf hop.1
  | listInsert list =>
    have hnew : m.malloc.IsNode m.cells.next ∧ m.malloc.listOf m.cells.next = none := by
      have hnull : m.malloc.listOf m.cells.next = none := by
        rw [listOf_malloc, Lists.listOf, Heap.get_next, Option.bind_none]
      refine ⟨⟨?_, fun hl => ?_⟩, hnull⟩
      · show ((m.cells.alloc _).get m.cells.next).isSome
        rw [Heap.get_alloc_next]
        rfl
      · rw [IsList, hnull] at hl
        cases hl
    have hinsert : ∃ m', m.malloc.listInsertNodeBefore (some m.cells.next) (some list) = some m' ∧ m'.Inv := by
      refine h.malloc.insertBefore ?_ ?_
      · rintro n hn
        obtain rfl := Option.some.inj hn
        exact hnew
      · rintro b hb
        obtain rfl := Option.some.inj hb
        exact isSome_malloc (isSome_of_listOf hop)
    exact hdone hinsert trivial
  | remove node => exact hdone (h.remove hop) trivial
  | free node => exact hdone (h.free hop) trivial
  | removeAll list =>
    obtain ⟨nodes, hat⟩ := h.lists list hop
    exact hdone (h.removeAll hat) trivial
  | freeAll list =>
    obtain ⟨nodes, hat⟩ := h.lists list hop
    exact hdone (h.freeAll hat) trivial
  | dispatchRemoveAll list frees =>
    obtain ⟨nodes, hat⟩ := h.lists list hop
    obtain ⟨m', hrun, hempty, hsize⟩ := hat.dispatchRemoveAll frees
    refine ⟨m', hrun, fun hspared => ?_, fun hw => ?_⟩
    · have hnil : nodes = [] := hat.listIsEmpty_iff.mp hspared
      refine h.emptied hat hempty ?_
      rw [hsize, hat.size, hnil, List.length_nil]
    · exact hat.listIsEmpty_iff.mpr (hat.wellFormed_dispatched hempty hsize hw)

theorem inv_empty : Inv ⟨.empty, fun _ => 0⟩ where
  lists := by
    intro list hl
    cases hl
  owner := by
    intro n list hn
    cases hn

theorem Reached.inv (h : m.Reached) : m.Inv := by
  refine Reach.invariant Inv ?_ ?_ h
  · rintro _ rfl
    exact inv_empty
  · rintro m op m' hm ⟨hop, hspared⟩ hs
    obtain ⟨m1, hrun, hinv, -⟩ := hm.step hop
    rw [hrun] at hs
    exact Option.some.inj hs ▸ hinv hspared

end Lists

/-- **Runs over lists.** In every memory that is reached by calls of which no `listener_dispatch_remove_all` meets a
    listener, all lists are well formed. The next call does not follow a bad pointer, and all lists are well formed after
    it exactly if it is no `listener_dispatch_remove_all` of a list that is not empty. -/
theorem list_run_exact {m : Lists} (h : m.Reached) {op : Lists.Op} (hop : m.Allowed op) :
    m.WellFormed ∧ ∃ m', m.step op = some m' ∧ (m'.WellFormed ↔ m.Spared op) := by
  obtain ⟨m', hrun, hinv, hspared⟩ := h.inv.step hop
  exact ⟨h.inv.wellFormed, m', hrun, hspared, fun hs => (hinv hs).wellFormed⟩

/-- The memory with a list of one node. -/
theorem reached_one : ∃ m, runFrom Lists.step ⟨.empty, fun _ => 0⟩ [.newList, .listInsert 0] = some m ∧ m.Reached := by
  have h0 : Lists.Reached ⟨.empty, fun _ => 0⟩ := .start rfl
  have h1 := h0.next (e := Lists.Op.newList) ⟨trivial, trivial⟩ rfl
  exact ⟨_, rfl, h1.next (e := Lists.Op.listInsert 0) ⟨rfl, trivial⟩ rfl⟩

theorem list_run_exact_remove :
    ∃ m, runFrom Lists.step ⟨.empty, fun _ => 0⟩ [.newList, .listInsert 0] = some m ∧ m.WellFormed ∧
      ∃ m', m.step (.remove (some 1)) = some m' ∧ (m'.WellFormed ↔ m.Spared (.remove (some 1))) := by
  obtain ⟨m, hrun, hm⟩ := reached_one
  have hop : m.Allowed (.remove (some 1)) := by
    obtain rfl := Option.some.inj hrun
    rintro n hn
    obtain rfl := Option.some.inj hn
    exact ⟨rfl, by unfold Lists.IsList; decide⟩
  exact ⟨m, hrun, list_run_exact hm hop⟩

/-- One listener is removed with `listener_dispatch_remove_all`. No node is left, and the size of the list stays one. -/
theorem size_not_reset :
    ∃ m m', runFrom Lists.step ⟨.empty, fun _ => 0⟩ [.newList, .listInsert 0] = some m ∧ m.Reached ∧
      m.Allowed (.dispatchRemoveAll 0 fun _ => false) ∧ m.step (.dispatchRemoveAll 0 fun _ => false) = some m' ∧
      m'.traverse m'.next 0 = some [] ∧ m'.size 0 = 1 ∧ ¬m'.WellFormed := by
  obtain ⟨m, hrun, hm⟩ := reached_one
  obtain rfl := Option.some.inj hrun
  refine ⟨_, _, rfl, hm, rfl, rfl, rfl, rfl, fun hw => ?_⟩
  obtain ⟨visited, hforward, -, hsize, -⟩ := hw 0 rfl
  cases hforward
  cases hsize

end DSLink.Col
