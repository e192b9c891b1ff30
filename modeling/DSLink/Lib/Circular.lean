import Mathlib.Data.List.Chain
import Mathlib.Data.List.Nodup

/-!
# `Lib.Circular` — circular doubly linked lists

`Circular next prev head nodes` says that the links lead from the head over the nodes, in this order, back to the head,
and the same way back. A place between two neighbours is a `Gap`: the nodes before it and behind it, and the neighbours,
either of which may be the head.

## Contents

* `Circular.congr`, `Circular.symm`, `Circular.unlinked` — other links, the way back, the empty list.
* `Circular.insert`, `Circular.remove` — a node is linked in at a gap and taken out.
* `Circular.walk` — a traversal visits the nodes.
* `Circular.drain` — a loop that may spoil the node it has just left.
-/

/-- What holds of neighbours, of which the first is not the last and the second not the first of the list. -/
theorem List.IsChain.imp_neighbours {A : Type} {R S : A → A → Prop} {l : List A} (h : l.IsChain R)
    (hRS : ∀ a ∈ l.dropLast, ∀ b ∈ l.tail, R a b → S a b) : l.IsChain S := by
  rw [List.isChain_iff_forall_rel_of_append_cons_cons] at h ⊢
  intro a b l1 l2 hl
  refine hRS a ?_ b ?_ (h hl)
  · rw [hl, List.dropLast_append_of_ne_nil (by simp)]
    simp
  · rw [hl]
    cases l1 <;> simp

/-- `b` comes behind `a`. -/
def Adjacent {A : Type} (next prev : A → Option A) (a b : A) : Prop := next a = some b ∧ prev b = some a

/-- The links lead from the head over the nodes back to the head. -/
structure Circular {A : Type} (next prev : A → Option A) (head : A) (nodes : List A) : Prop where
  nodup : (head :: nodes).Nodup
  chain : (head :: (nodes ++ [head])).IsChain (Adjacent next prev)

/-- The place between `a` and `b`, with the nodes before it and behind it. -/
structure Gap {A : Type} (head : A) (l1 l2 : List A) (a b : A) : Prop where
  last : (head :: l1).getLast? = some a
  first : (l2 ++ [head]).head? = some b

variable {A : Type} {head n a b : A} {nodes l1 l2 : List A} {next prev next' prev' : A → Option A}

namespace Gap

theorem between (head : A) (l1 l2 : List A) : ∃ a b, Gap head l1 l2 a b := by
  obtain ⟨a, ha⟩ := Option.ne_none_iff_exists'.mp (mt List.getLast?_eq_none_iff.mp (List.cons_ne_nil head l1))
  obtain ⟨b, hb⟩ := Option.isSome_iff_exists.mp (List.isSome_head?.mpr (List.append_ne_nil_of_right_ne_nil l2 (List.cons_ne_nil head [])))
  exact ⟨a, b, ha, hb⟩

/-- The place behind a node or the head. -/
theorem after (h : a ∈ head :: nodes) : ∃ l1 l2 b, nodes = l1 ++ l2 ∧ Gap head l1 l2 a b := by
  obtain ⟨before, behind, hsplit⟩ := List.append_of_mem h
  have hlast : ∃ l1, nodes = l1 ++ behind ∧ head :: l1 = before ++ [a] := by
    cases before with
    | nil =>
      obtain ⟨rfl, rfl⟩ := List.cons.inj hsplit
      exact ⟨[], rfl, rfl⟩
    | cons x before =>
      obtain ⟨rfl, rfl⟩ := List.cons.inj hsplit
      exact ⟨before ++ [a], by simp, rfl⟩
  obtain ⟨l1, hnodes, hl1⟩ := hlast
  obtain ⟨_, b, hgap⟩ := between head l1 behind
  exact ⟨l1, behind, b, hnodes, by rw [hl1, List.getLast?_concat], hgap.first⟩

/-- The place before a node or the head. -/
theorem before (h : b ∈ head :: nodes) : ∃ l1 l2 a, nodes = l1 ++ l2 ∧ Gap head l1 l2 a b := by
  rcases List.mem_cons.mp h with rfl | h
  · obtain ⟨a, _, hgap⟩ := between b nodes []
    exact ⟨nodes, [], a, by simp, hgap.last, rfl⟩
  · obtain ⟨l1, l2, rfl⟩ := List.append_of_mem h
    obtain ⟨a, _, hgap⟩ := between head l1 (b :: l2)
    exact ⟨l1, b :: l2, a, rfl, hgap.last, rfl⟩

theorem last_mem (h : Gap head l1 l2 a b) : a ∈ head :: l1 := List.mem_of_getLast? h.last

theorem first_mem (h : Gap head l1 l2 a b) : b ∈ l2 ++ [head] := List.mem_of_mem_head? h.first

end Gap

namespace Circular

/-- A gap splits the chain. -/
theorem chain_split (hgap : Gap head l1 l2 a b) {R : A → A → Prop} :
    (head :: ((l1 ++ l2) ++ [head])).IsChain R ↔ (head :: l1).IsChain R ∧ R a b ∧ (l2 ++ [head]).IsChain R := by
  rw [List.append_assoc, ← List.cons_append, List.isChain_append]
  simp only [hgap.last, hgap.first, Option.mem_def, Option.some.injEq, forall_eq']
  tauto

/-- The neighbours of a gap. -/
theorem adjacent (h : Circular next prev head (l1 ++ l2)) (hgap : Gap head l1 l2 a b) : Adjacent next prev a b :=
  ((chain_split hgap).mp h.chain).2.1

theorem congr (h : Circular next prev head nodes) (hnext : ∀ x ∈ head :: nodes, next' x = next x)
    (hprev : ∀ x ∈ head :: nodes, prev' x = prev x) : Circular next' prev' head nodes := by
  refine ⟨h.nodup, h.chain.imp_neighbours fun x hx y hy hxy => ?_⟩
  rw [← List.cons_append, List.dropLast_concat] at hx
  have hy : y ∈ head :: nodes := by simpa [or_comm] using hy
  exact ⟨(hnext x hx).trans hxy.1, (hprev y hy).trans hxy.2⟩

/-- The same list on the way back. -/
theorem symm (h : Circular next prev head nodes) : Circular prev next head nodes.reverse := by
  refine ⟨by simpa using h.nodup, ?_⟩
  have hback : head :: (nodes.reverse ++ [head]) = (head :: (nodes ++ [head])).reverse := by simp
  rw [hback, List.isChain_reverse]
  exact h.chain.imp fun _ _ hab => ⟨hab.2, hab.1⟩

/-- A head whose links lead to itself. -/
theorem unlinked (hnext : next head = some head) (hprev : prev head = some head) : Circular next prev head [] :=
  ⟨by simp, .cons_cons ⟨hnext, hprev⟩ (.singleton _)⟩

/-- What stands before and behind a gap does not look at the link over it. -/
theorem chain_left (hgap : Gap head l1 l2 a b) (hnodup : (head :: (l1 ++ l2)).Nodup)
    (h : (head :: l1).IsChain (Adjacent next prev)) (hnext : ∀ x ∈ head :: l1, x ≠ a → next' x = next x)
    (hprev : ∀ x ∈ head :: l1, x ≠ b → prev' x = prev x) : (head :: l1).IsChain (Adjacent next' prev') := by
  obtain ⟨p, hp⟩ := List.getLast?_eq_some_iff.mp hgap.last
  refine h.imp_neighbours fun x hx y hy hxy => ?_
  have hxa : x ≠ a := by
    have hdistinct : (p ++ [a]).Nodup := hp ▸ hnodup.sublist (by simp)
    rw [hp, List.dropLast_concat] at hx
    exact (List.nodup_append.mp hdistinct).2.2 x hx a (by simp)
  have hyb : y ≠ b := by
    rintro rfl
    rw [List.tail_cons] at hy
    rcases List.mem_append.mp hgap.first_mem with hl2 | hhead
    · exact (List.nodup_append.mp (List.nodup_cons.mp hnodup).2).2.2 y hy y hl2 rfl
    · rw [List.mem_singleton] at hhead
      exact (List.nodup_cons.mp hnodup).1 (List.mem_append_left _ (hhead ▸ hy))
  exact ⟨(hnext x (List.dropLast_subset _ hx) hxa).trans hxy.1, (hprev y (List.mem_of_mem_tail hy) hyb).trans hxy.2⟩

theorem chain_right (hgap : Gap head l1 l2 a b) (hnodup : (head :: (l1 ++ l2)).Nodup)
    (h : (l2 ++ [head]).IsChain (Adjacent next prev)) (hnext : ∀ x ∈ head :: l2, x ≠ a → next' x = next x)
    (hprev : ∀ x ∈ head :: l2, x ≠ b → prev' x = prev x) : (l2 ++ [head]).IsChain (Adjacent next' prev') := by
  obtain ⟨q, hq⟩ := List.head?_eq_some_iff.mp hgap.first
  refine h.imp_neighbours fun x hx y hy hxy => ?_
  rw [List.dropLast_concat] at hx
  have hxa : x ≠ a := by
    rintro rfl
    rcases List.mem_cons.mp hgap.last_mem with rfl | hl1
    · exact (List.nodup_cons.mp hnodup).1 (List.mem_append_right _ hx)
    · exact (List.nodup_append.mp (List.nodup_cons.mp hnodup).2).2.2 x hl1 x hx rfl
  have hyb : y ≠ b := by
    have hdistinct : (l2 ++ [head]).Nodup := by
      rw [← List.nodup_reverse, List.reverse_append]
      simpa using hnodup.sublist (List.Sublist.cons_cons head (List.sublist_append_right l1 l2))
    rw [hq] at hy hdistinct
    rintro rfl
    exact (List.nodup_cons.mp hdistinct).1 hy
  have hymem : y ∈ head :: l2 := by simpa [or_comm] using List.mem_of_mem_tail hy
  exact ⟨(hnext x (List.mem_cons_of_mem _ hx) hxa).trans hxy.1, (hprev y hymem hyb).trans hxy.2⟩

variable [DecidableEq A]

/-- A node that is linked in between two neighbours. -/
theorem insert (h : Circular next prev head (l1 ++ l2)) (hgap : Gap head l1 l2 a b) (hn : n ∉ head :: (l1 ++ l2))
    (hnext : ∀ x, next' x = if x = n then some b else if x = a then some n else next x)
    (hprev : ∀ x, prev' x = if x = n then some a else if x = b then some n else prev x) :
    Circular next' prev' head (l1 ++ n :: l2) := by
  have hne1 : ∀ x ∈ head :: l1, x ≠ n := by
    rintro x hx rfl
    exact hn (by simp at hx ⊢; tauto)
  have hne2 : ∀ x ∈ head :: l2, x ≠ n := by
    rintro x hx rfl
    exact hn (by simp at hx ⊢; tauto)
  have hbn : b ≠ n := hne2 b (by simpa [or_comm] using hgap.first_mem)
  obtain ⟨hleft, -, hright⟩ := (chain_split hgap).mp h.chain
  have hgap1 : Gap head l1 (n :: l2) a n := ⟨hgap.last, rfl⟩
  refine ⟨?_, (chain_split hgap1).mpr ⟨?_, ?_, ?_⟩⟩
  · have hperm : (head :: (l1 ++ n :: l2)).Perm (n :: head :: (l1 ++ l2)) :=
      (List.perm_middle.cons head).trans (List.Perm.swap n head _)
    exact hperm.nodup_iff.mpr (List.nodup_cons.mpr ⟨hn, h.nodup⟩)
  · refine chain_left hgap h.nodup hleft (fun x hx hxa => ?_) fun x hx hxb => ?_
    · rw [hnext, if_neg (hne1 x hx), if_neg hxa]
    · rw [hprev, if_neg (hne1 x hx), if_neg hxb]
  · refine ⟨?_, by rw [hprev, if_pos rfl]⟩
    rw [hnext, if_neg (hne1 a hgap.last_mem), if_pos rfl]
  · rw [List.cons_append, List.isChain_cons, hgap.first]
    refine ⟨?_, ?_⟩
    · rintro y hy
      obtain rfl := Option.some.inj hy
      exact ⟨by rw [hnext, if_pos rfl], by rw [hprev, if_neg hbn, if_pos rfl]⟩
    · refine chain_right hgap h.nodup hright (fun x hx hxa => ?_) fun x hx hxb => ?_
      · rw [hnext, if_neg (hne2 x hx), if_neg hxa]
      · rw [hprev, if_neg (hne2 x hx), if_neg hxb]

/-- A node that is taken out, with its neighbours linked to each other. -/
theorem remove (h : Circular next prev head (l1 ++ n :: l2)) (hgap : Gap head l1 l2 a b)
    (hnext : ∀ x ≠ n, next' x = if x = a then some b else next x)
    (hprev : ∀ x ≠ n, prev' x = if x = b then some a else prev x) : Circular next' prev' head (l1 ++ l2) := by
  have hperm : (head :: (l1 ++ n :: l2)).Perm (n :: head :: (l1 ++ l2)) :=
    (List.perm_middle.cons head).trans (List.Perm.swap n head _)
  obtain ⟨hn, hnodup⟩ := List.nodup_cons.mp (hperm.nodup_iff.mp h.nodup)
  have hne1 : ∀ x ∈ head :: l1, x ≠ n := by
    rintro x hx rfl
    exact hn (by simp at hx ⊢; tauto)
  have hne2 : ∀ x ∈ head :: l2, x ≠ n := by
    rintro x hx rfl
    exact hn (by simp at hx ⊢; tauto)
  have hgap1 : Gap head l1 (n :: l2) a n := ⟨hgap.last, rfl⟩
  obtain ⟨hleft, -, hright⟩ := (chain_split hgap1).mp h.chain
  have hright := (List.isChain_cons.mp hright).2
  refine ⟨hnodup, (chain_split hgap).mpr ⟨?_, ?_, ?_⟩⟩
  · refine chain_left hgap hnodup hleft (fun x hx hxa => ?_) fun x hx hxb => ?_
    · rw [hnext x (hne1 x hx), if_neg hxa]
    · rw [hprev x (hne1 x hx), if_neg hxb]
  · have hbn : b ≠ n := hne2 b (by simpa [or_comm] using hgap.first_mem)
    exact ⟨by rw [hnext a (hne1 a hgap.last_mem), if_pos rfl], by rw [hprev b hbn, if_pos rfl]⟩
  · refine chain_right hgap hnodup hright (fun x hx hxa => ?_) fun x hx hxb => ?_
    · rw [hnext x (hne2 x hx), if_neg hxa]
    · rw [hprev x (hne2 x hx), if_neg hxb]

end Circular

/-! ## Loops -/

section Loops

variable [DecidableEq A]

/-- The nodes that are visited from `p` on until the head. -/
def walk (next : A → Option A) (head : A) : Nat → Option A → Option (List A)
  | 0, _ => none
  | fuel + 1, p => if p = some head then some [] else p.bind fun a => (walk next head fuel (next a)).map (a :: ·)

/-- A loop over the nodes from `p` on, which fetches the next node before `body` runs. -/
def drain {σ : Type} (next : σ → A → Option A) (body : σ → A → σ) (head : A) : Nat → Option A → σ → Option σ
  | 0, _, _ => none
  | fuel + 1, p, s => if p = some head then some s else p.bind fun a => drain next body head fuel (next s a) (body s a)

theorem walk_chain {fuel : Nat} (h : (a :: (nodes ++ [head])).IsChain (Adjacent next prev)) (hhead : head ∉ nodes)
    (hfuel : nodes.length < fuel) : walk next head fuel (next a) = some nodes := by
  induction nodes generalizing a fuel with
  | nil =>
    obtain ⟨fuel, rfl⟩ := Nat.exists_eq_succ_of_ne_zero (Nat.ne_of_gt hfuel)
    rw [walk, if_pos (List.isChain_cons_cons.mp h).1.1]
  | cons b nodes ih =>
    obtain ⟨fuel, rfl⟩ := Nat.exists_eq_succ_of_ne_zero (Nat.ne_of_gt (Nat.zero_lt_of_lt hfuel))
    obtain ⟨hab, hchain⟩ := List.isChain_cons_cons.mp h
    obtain ⟨hne, hhead⟩ := not_or.mp (mt List.mem_cons.mpr hhead)
    rw [walk, hab.1, if_neg (by simpa using Ne.symm hne), Option.bind_some,
      ih hchain hhead (Nat.lt_of_succ_lt_succ hfuel), Option.map_some]

/-- A traversal visits the nodes. -/
theorem Circular.walk (h : Circular next prev head nodes) {fuel : Nat} (hfuel : nodes.length < fuel) :
    walk next head fuel (next head) = some nodes :=
  walk_chain h.chain (List.nodup_cons.mp h.nodup).1 hfuel

theorem drain_chain {σ : Type} {next : σ → A → Option A} {body : σ → A → σ}
    (hbody : ∀ s a b, b ≠ a → next (body s a) b = next s b) {s : σ} {fuel : Nat}
    (h : (nodes ++ [head]).IsChain fun a b => next s a = some b) (hnodup : (head :: nodes).Nodup)
    (hfuel : nodes.length < fuel) : drain next body head fuel (nodes ++ [head]).head? s = some (nodes.foldl body s) := by
  induction nodes generalizing s fuel with
  | nil =>
    obtain ⟨fuel, rfl⟩ := Nat.exists_eq_succ_of_ne_zero (Nat.ne_of_gt hfuel)
    exact if_pos rfl
  | cons a nodes ih =>
    obtain ⟨fuel, rfl⟩ := Nat.exists_eq_succ_of_ne_zero (Nat.ne_of_gt (Nat.zero_lt_of_lt hfuel))
    obtain ⟨⟨hne, hhead⟩, ha, hnodup⟩ : (head ≠ a ∧ head ∉ nodes) ∧ a ∉ nodes ∧ nodes.Nodup := by simpa using hnodup
    rw [List.cons_append] at h
    obtain ⟨hnext, hchain⟩ := List.isChain_cons.mp h
    have hsome : next s a = (nodes ++ [head]).head? := by
      cases nodes <;> exact hnext _ rfl
    have hlater : (nodes ++ [head]).IsChain fun b c => next (body s a) b = some c := by
      refine hchain.imp_neighbours fun b hb c _ hbc => ?_
      rw [List.dropLast_concat] at hb
      rw [hbody s a b fun he => ha (he ▸ hb), hbc]
    rw [drain, List.cons_append, List.head?_cons, if_neg (by simpa using Ne.symm hne), Option.bind_some, hsome,
      ih hlater (List.nodup_cons.mpr ⟨hhead, hnodup⟩) (Nat.lt_of_succ_lt_succ hfuel), List.foldl_cons]

/-- A loop over the nodes runs `body` at each one. -/
theorem Circular.drain {σ : Type} {next : σ → A → Option A} {body : σ → A → σ}
    (hbody : ∀ s a b, b ≠ a → next (body s a) b = next s b) {s : σ} (h : Circular (next s) prev head nodes) {fuel : Nat}
    (hfuel : nodes.length < fuel) : drain next body head fuel (next s head) s = some (nodes.foldl body s) := by
  obtain ⟨hnext, hchain⟩ := List.isChain_cons.mp h.chain
  have hsome : next s head = (nodes ++ [head]).head? := by
    cases nodes <;> exact (hnext _ rfl).1
  rw [hsome]
  exact drain_chain hbody (hchain.imp fun _ _ hab => hab.1) h.nodup hfuel

end Loops
