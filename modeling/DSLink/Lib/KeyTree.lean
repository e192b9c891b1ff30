import DSLink.Lib.AssocMap

/-!
# `Lib.KeyTree` — trees whose children have keys

A tree is a label and a list of children under keys; a list of keys names a node. `KeyTree.Holds P` says that
`P` is true at every node, with a flag for the node at the top: the rule `KeyTree.Holds.update` carries it over
a change at one node, for predicates that look at the children only through a relation the change keeps.

## Contents

* `KeyTree.child`, `KeyTree.find` — the node under a key, and under a list of keys.
* `KeyTree.setChild`, `KeyTree.eraseChild`, `KeyTree.update` — the changes.
* `KeyTree.Holds` — a predicate at every node.
-/

/-- A tree with a label at each node and a key at each child. -/
inductive KeyTree (κ α : Type)
  | node (label : α) (children : List (κ × KeyTree κ α))

namespace KeyTree

variable {κ α : Type}

def label : KeyTree κ α → α
  | node label _ => label

def children : KeyTree κ α → List (κ × KeyTree κ α)
  | node _ children => children

/-- The node with another label. -/
def setLabel (t : KeyTree κ α) (label : α) : KeyTree κ α := node label t.children

@[simp] theorem children_setLabel (t : KeyTree κ α) (label : α) : (t.setLabel label).children = t.children := rfl

variable [DecidableEq κ]

/-- The child under a key. -/
def child (t : KeyTree κ α) (k : κ) : Option (KeyTree κ α) := AssocMap.lookupIn k t.children

/-- Put a child under a key. -/
def setChild (t : KeyTree κ α) (k : κ) (c : KeyTree κ α) : KeyTree κ α := node t.label (AssocMap.setIn k c t.children)

/-- Take the child under a key away. -/
def eraseChild (t : KeyTree κ α) (k : κ) : KeyTree κ α := node t.label (AssocMap.eraseIn k t.children)

/-- The node that a list of keys names. -/
def find : KeyTree κ α → List κ → Option (KeyTree κ α)
  | t, [] => some t
  | t, k :: ks => (t.child k).bind fun c => c.find ks

/-- Change the node that a list of keys names, where there is one and the change succeeds. -/
def update (f : KeyTree κ α → Option (KeyTree κ α)) : List κ → KeyTree κ α → Option (KeyTree κ α)
  | [], t => f t
  | k :: ks, t => (t.child k).bind fun c => (update f ks c).map (t.setChild k)

variable {t t' c c' : KeyTree κ α} {k k' : κ} {ks : List κ}

@[simp] theorem label_eraseChild : (t.eraseChild k).label = t.label := rfl

@[simp] theorem find_nil : t.find [] = some t := by rw [find]

@[simp] theorem find_cons : t.find (k :: ks) = (t.child k).bind fun c => c.find ks := by rw [find]

theorem update_nil {f : KeyTree κ α → Option (KeyTree κ α)} : update f [] t = f t := by rw [update]

theorem update_cons {f : KeyTree κ α → Option (KeyTree κ α)} (h : update f (k :: ks) t = some t') :
    ∃ c c', t.child k = some c ∧ update f ks c = some c' ∧ t' = t.setChild k c' := by
  rw [update] at h
  obtain ⟨c, hc, h⟩ := Option.bind_eq_some_iff.mp h
  obtain ⟨c', hc', rfl⟩ := Option.map_eq_some_iff.mp h
  exact ⟨c, c', hc, hc', rfl⟩

theorem child_setChild : (t.setChild k c).child k' = if k' = k then some c else t.child k' :=
  AssocMap.lookupIn_setIn k k' c t.children

theorem child_setChild_self : (t.setChild k c).child k = some c := by
  rw [child_setChild, if_pos rfl]

theorem child_setChild_ne (h : k' ≠ k) : (t.setChild k c).child k' = t.child k' := by
  rw [child_setChild, if_neg h]

/-- A node below is a node below a child. -/
theorem find_append {ks js : List κ} : t.find (ks ++ js) = (t.find ks).bind fun c => c.find js := by
  induction ks generalizing t with
  | nil => simp
  | cons k ks ih =>
    simp only [List.cons_append, find_cons]
    cases t.child k with
    | none => rfl
    | some c => exact ih

/-! ## Different keys -/

/-- The children have different keys. -/
def Distinct (t : KeyTree κ α) : Prop := (t.children.map Prod.fst).Nodup

theorem Distinct.mem_iff (h : t.Distinct) : (k, c) ∈ t.children ↔ t.child k = some c :=
  (AssocMap.lookupIn_eq_some h).symm

theorem Distinct.mem_of_child (h : t.Distinct) (hc : t.child k = some c) : (k, c) ∈ t.children := h.mem_iff.mpr hc

theorem Distinct.setChild (h : t.Distinct) : (t.setChild k c).Distinct := AssocMap.nodup_setIn h

theorem Distinct.eraseChild (h : t.Distinct) : (t.eraseChild k).Distinct := AssocMap.nodup_eraseIn h

theorem Distinct.child_eraseChild (h : t.Distinct) :
    (t.eraseChild k).child k' = if k' = k then none else t.child k' :=
  AssocMap.lookupIn_eraseIn h

theorem Distinct.mem_setChild (h : t.Distinct) {e : κ × KeyTree κ α} (he : e ∈ (t.setChild k c).children) :
    e = (k, c) ∨ e ∈ t.children := by
  have hchild : (t.setChild k c).child e.1 = some e.2 := h.setChild.mem_iff.mp he
  rw [child_setChild] at hchild
  split at hchild
  · rename_i hk
    exact .inl (Prod.ext hk (Option.some.inj hchild).symm)
  · exact .inr (h.mem_of_child hchild)

theorem mem_eraseChild {e : κ × KeyTree κ α} (he : e ∈ (t.eraseChild k).children) : e ∈ t.children :=
  AssocMap.mem_eraseIn he

/-! ## A predicate at every node -/

/-- `P` is true at every node, and `P true` at the top one. -/
inductive Holds (P : Bool → KeyTree κ α → Prop) : Bool → KeyTree κ α → Prop
  | intro {top : Bool} {t : KeyTree κ α} : P top t → (∀ e ∈ t.children, Holds P false e.2) → Holds P top t

variable {P : Bool → KeyTree κ α → Prop} {top : Bool}

omit [DecidableEq κ] in
theorem Holds.here (h : Holds P top t) : P top t := by
  cases h with
  | intro here _ => exact here

omit [DecidableEq κ] in
theorem Holds.forall_children (h : Holds P top t) : ∀ e ∈ t.children, Holds P false e.2 := by
  cases h with
  | intro _ children => exact children

theorem Holds.child (h : Holds P top t) (ht : t.Distinct) (hc : t.child k = some c) : Holds P false c :=
  h.forall_children (k, c) (ht.mem_of_child hc)

/-- The nodes below a node keep the predicate when one of them is replaced. -/
theorem Holds.setChild (h : Holds P top t) (ht : t.Distinct) (hc : Holds P false c) (here : P top (t.setChild k c)) :
    Holds P top (t.setChild k c) := by
  refine .intro here fun e he => ?_
  rcases ht.mem_setChild he with rfl | he
  · exact hc
  · exact h.forall_children e he

theorem Holds.eraseChild (h : Holds P top t) (here : P top (t.eraseChild k)) : Holds P top (t.eraseChild k) :=
  .intro here fun e he => h.forall_children e (mem_eraseChild he)

omit [DecidableEq κ] in
theorem Holds.setLabel (h : Holds P top t) {label : α} (here : P top (t.setLabel label)) :
    Holds P top (t.setLabel label) :=
  .intro here h.forall_children

/-- A change at one node keeps the predicate when it keeps it at that node, and a relation `R` that is enough for
    the parent of a changed node to stay in the predicate and in the relation. -/
theorem Holds.update {R : KeyTree κ α → KeyTree κ α → Prop} {f : KeyTree κ α → Option (KeyTree κ α)}
    (hdistinct : ∀ {top t}, P top t → t.Distinct)
    (hf : ∀ {top t t'}, Holds P top t → f t = some t' → Holds P top t' ∧ R t t')
    (hparent : ∀ {top t k c c'}, P top t → t.child k = some c → R c c' →
      P top (t.setChild k c') ∧ R t (t.setChild k c'))
    (h : Holds P top t) (hu : KeyTree.update f ks t = some t') : Holds P top t' ∧ R t t' := by
  induction ks generalizing top t t' with
  | nil =>
    rw [update_nil] at hu
    exact hf h hu
  | cons k ks ih =>
    obtain ⟨c, c', hc, hc', rfl⟩ := update_cons hu
    obtain ⟨hholds, hR⟩ := ih (h.child (hdistinct h.here) hc) hc'
    obtain ⟨here, hRt⟩ := hparent h.here hc hR
    exact ⟨h.setChild (hdistinct h.here) hholds here, hRt⟩

end KeyTree
