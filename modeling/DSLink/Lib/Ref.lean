import DSLink.Lib.Heap

/-!
# `Lib.Ref` — objects that are freed with their last reference

A counted object lives in a heap together with the number of references to it. Whoever gives a reference back
names the object; the object goes when the count comes to zero, and giving back a reference to an object that is
gone already is an error.
-/

/-- A counted object. -/
structure Ref (α : Type) where
  count : Nat
  data : α

namespace Heap

variable {α : Type}

/-- A new object with one reference. -/
def newRef (h : Heap (Ref α)) (data : α) : Heap (Ref α) := h.alloc ⟨1, data⟩

/-- One more reference. -/
def incref (h : Heap (Ref α)) (i : Nat) : Heap (Ref α) := h.modify i (fun r => { r with count := r.count + 1 })

/-- One reference less. -/
def decref (h : Heap (Ref α)) (i : Nat) : Option (Heap (Ref α)) :=
  (h.get i).map (fun r => if r.count ≤ 1 then h.free i else h.put i { r with count := r.count - 1 })

/-- The object, as long as it is there. -/
def deref (h : Heap (Ref α)) (i : Nat) : Option α := (h.get i).map Ref.data

variable {h h' : Heap (Ref α)} {i j : Nat} {r : Ref α}

end Heap
